import Convers.Host.Handshake
import Convers.Host.Node
import Convers.Lib.Run

/-!
# The relay

Three paths pass the commands of one host on to the others: a line of the uplink is
passed on when it is read, a line of a peer goes through the queue of the owning loop,
by way of the early content when its handshake is not complete, and what the hub
answers goes through the dispatcher. `Convers.Node.RelaysRight` is what one step owes
the hosts, and `Convers.Node.RelayedOnce` what a run does: every step is right, and
what is received from a host is what is handled and what waits, in order.

The path of the uplink is the one that fails. It passes a line on only when the link
is established, while the engine and the sessions of the peers take content from a
host that is still handshaking; so presence that the parent sends ahead of its reply
reaches the hub and no peer (`Convers.Node.not_relayedOnce_early`). The other way to lose
a command is a timestamp that is no moment, on which the engine throws. A run without
either relays every command once (`Convers.Node.relayedOnce_of_relayable`).
-/

namespace Convers

/-- Another host: the parent, or a downstream peer. -/
inductive RemoteHost where
  | uplink
  | peer (peerId : Text)
  deriving DecidableEq

namespace HostLink

/-- The commands written to a host. -/
def writtenTo : RemoteHost → List Effect → List HostCommand
  | .uplink, effects => attempted effects
  | .peer peerId, effects => enqueuedTo peerId effects

end HostLink

namespace Node

open HostLink (writtenTo attempted enqueuedTo)

variable (n : Node) (label : Label)

/-- Whether a host is connected: the uplink from the start of its connection, a peer
from its registration. -/
def connected : RemoteHost → Prop
  | .uplink => n.links.uplink = true
  | .peer peerId => peerId ∈ n.links.peers

instance : (host : RemoteHost) → Decidable (n.connected host)
  | .uplink => inferInstanceAs (Decidable (n.links.uplink = true))
  | .peer peerId => inferInstanceAs (Decidable (peerId ∈ n.links.peers))

/-- The line a step reads off a link, with the host it is from. -/
def heard : Option (RemoteHost × Text) :=
  match label with
  | .uplinkLine _ line => if n.uplink.isSome then some (.uplink, line) else none
  | .read _ peerId =>
    match n.sessions.find? peerId with
    | some session =>
      match session.phase, session.inbox with
      | .receiving, line :: _ => some (.peer peerId, line)
      | _, _ => none
    | none => none
  | _ => none

/-- The command of the network a step receives. -/
def received : Option (RemoteHost × HostCommand) :=
  (n.heard label).bind fun (host, line) => (PeerRelay.contentOf line).map (host, ·)

/-- The command of the network a step deals with: that of a line of the uplink is dealt
with at once, and that of a peer when its turn in the queue comes. -/
def handled : Option (RemoteHost × HostCommand) :=
  match label with
  | .uplinkLine .. => n.received label
  | .drain _ =>
    match n.queue with
    | .peer command originPeerId :: _ => some (.peer originPeerId, command)
    | _ => none
  | _ => none

/-- **What a step owes the hosts.** -/
structure RelaysRight : Prop where
  /-- A command that is dealt with goes to every other connected host, once, and nothing
  else is written to anybody. -/
  passed : ∀ origin command, n.handled label = some (origin, command) → ∀ host,
    writtenTo host (n.effects label) =
      if host ≠ origin ∧ n.connected host then [command] else []
  /-- The verbs of a single link are not among them. -/
  content : ∀ origin command, n.handled label = some (origin, command) →
    PeerRelay.isLinkLocal command = false
  /-- A line that is not dealt with at once has nothing written to the other hosts. -/
  quiet : ∀ origin line, n.heard label = some (origin, line) → n.handled label = none →
    ∀ host ≠ origin, writtenTo host (n.effects label) = []

/-- The commands of one host. -/
def ofHost (host : RemoteHost) : Option (RemoteHost × HostCommand) → List HostCommand
  | some (origin, command) => if origin = host then [command] else []
  | none => []

/-- The commands of a peer on the queue. -/
def queuedFrom (peerId : Text) (queue : List HubWork) : List HostCommand :=
  queue.filterMap fun
    | .peer command originPeerId => if originPeerId = peerId then some command else none
    | _ => none

/-- The commands of a peer in its early content. -/
def earlyFrom (peerId : Text) : List HostCommand :=
  match n.sessions.find? peerId with
  | some session => session.earlyContent.filterMap PeerRelay.contentOf
  | none => []

/-- The commands received from a host that wait to be dealt with. -/
def waiting : RemoteHost → List HostCommand
  | .uplink => []
  | .peer peerId => queuedFrom peerId n.queue ++ n.earlyFrom peerId

/-- **What a run owes the hosts.** -/
structure RelayedOnce (labels : List Label) : Prop where
  /-- Every step is right. -/
  right : ∀ p ∈ Run.trace step n labels, RelaysRight p.1 p.2
  /-- What is received from a host is dealt with in order, or waits. -/
  conserved : ∀ host,
    (Run.trace step n labels).flatMap (fun p => ofHost host (received p.1 p.2)) =
      (Run.trace step n labels).flatMap (fun p => ofHost host (handled p.1 p.2)) ++
        (Run.final step n labels).waiting host

/-- The peers are fixed: none is lost before it is registered. -/
def KeepsPeers : Prop :=
  match label with
  | .peerLoss peerId => ∀ session, n.sessions.find? peerId = some session → session.registered
  | .peerTick now peerId => ∀ session, n.sessions.find? peerId = some session →
    session.registered ∨ (session.engine.onTick now).2.dropReason = none
  | _ => True

/-- A line whose timestamp, if it has one, is a moment. -/
def Stamped (line : Text) : Prop :=
  ∀ seconds ∈ HostLinkEngine.timestampField line, DateTimeOffset.InRange seconds.toInt

/-- **The steps that are right**: content of the uplink comes on an established link or
with no peer to pass it to, and content of either kind of host has a timestamp in
range. -/
def Relayable : Prop :=
  ∀ origin command line, n.heard label = some (origin, line) →
    PeerRelay.contentOf line = some command →
      match origin with
      | .uplink => n.links.peers = [] ∨
          (∃ engine, n.uplink = some engine ∧ engine.state = .established) ∧ Stamped line
      | .peer _ => Stamped line

end Node

namespace Node

instance (n : Node) : (label : Label) → Decidable (n.KeepsPeers label)
  | .peerLoss peerId => inferInstanceAs
    (Decidable (∀ session ∈ n.sessions.find? peerId, session.registered = true))
  | .peerTick now peerId => inferInstanceAs
    (Decidable (∀ session ∈ n.sessions.find? peerId, session.registered = true ∨
      (session.engine.onTick now).2.dropReason = none))
  | .submit _ | .drain _ | .connect _ | .uplinkLine .. | .uplinkTick _ | .uplinkLoss | .accept ..
  | .arrive .. | .read .. | .proceed _ => inferInstanceAs (Decidable True)

-- through the field: the library's instance would go through all numbers
instance (line : Text) : Decidable (Stamped line) :=
  Option.decidableForallMem (HostLinkEngine.timestampField line)

/-- The condition of a step, for what it hears. -/
theorem relayable_iff (n : Node) (label : Label) :
    n.Relayable label ↔ ∀ p ∈ n.heard label, (PeerRelay.contentOf p.2).isSome = true →
      match p.1 with
      | .uplink => n.links.peers = [] ∨
          (∃ engine ∈ n.uplink, engine.state = .established) ∧ Stamped p.2
      | .peer _ => Stamped p.2 := by
  constructor
  · rintro h ⟨origin, line⟩ hheard hcontent
    obtain ⟨command, hcommand⟩ := Option.isSome_iff_exists.mp hcontent
    exact h origin command line hheard hcommand
  · intro h origin command line hheard hcommand
    exact h (origin, line) hheard (Option.isSome_iff_exists.mpr ⟨command, hcommand⟩)

instance (n : Node) (label : Label) : Decidable (n.Relayable label) :=
  have (p : RemoteHost × Text) : Decidable ((PeerRelay.contentOf p.2).isSome = true →
      match p.1 with
      | .uplink => n.links.peers = [] ∨
          (∃ engine ∈ n.uplink, engine.state = .established) ∧ Stamped p.2
      | .peer _ => Stamped p.2) := by
    rcases p with ⟨_ | peerId, line⟩
    · exact inferInstanceAs (Decidable (_ → _ ∨ (∃ engine ∈ n.uplink, _) ∧ Stamped line))
    · exact inferInstanceAs (Decidable (_ → Stamped line))
  decidable_of_iff _ (n.relayable_iff label).symm

end Node

/-! ### What the engine does to a line -/

namespace HostLinkEngine

variable {now : DateTimeOffset} {e e' : HostLinkEngine} {line : Text} {step : EngineStep}

/-- A line changes the state of an open link only when it completes the handshake. -/
theorem state_of_line (hopen : e.state ≠ .disconnected)
    (h : e.onLineReceived now line = .ok (e', step)) :
    e'.state = (if step.handshakeCompleted then .established else e.state) ∧
      (step.handshakeCompleted = true → e.state = .handshaking) := by
  rcases move_line hopen h with ⟨_, _, he, hplain⟩ | ⟨_, _, hstate, he, hstep⟩ |
    ⟨_, _, hstate, he, hplain, _⟩
  · rw [hplain.completed, he]
    exact ⟨rfl, nofun⟩
  · rw [hstep, he]
    exact ⟨rfl, fun _ => hstate⟩
  · rw [hplain.completed, he]
    exact ⟨rfl, nofun⟩

/-- A line drops no link that is handshaking. -/
theorem dropReason_of_handshaking (hstate : e.state = .handshaking)
    (h : e.onLineReceived now line = .ok (e', step)) : step.dropReason = none := by
  rw [onLineReceived_eq, hstate] at h
  rcases hparsed : (HostCommandCodec.stripPrefix line).map HostCommandCodec.parseBody with _ | c
  · rw [hparsed] at h
    cases h
    rfl
  · rw [hparsed] at h
    cases c with
    | hostHandshake hostname software facilities =>
      cases h
      rfl
    | _ =>
      rw [(of_bridge h).2.1]
      rfl

/-- A tick changes no state. -/
theorem state_onTick (now : DateTimeOffset) (e : HostLinkEngine) :
    (e.onTick now).1.state = e.state := by
  have hmove := move_tick now e
  generalize (e.onTick now).1 = e' at hmove
  rcases hmove with _ | _ | _ | ⟨_, he, _⟩ | ⟨_, he, _⟩ | ⟨_, _, _, he, _⟩ | ⟨_, _, he, _⟩
  all_goals rw [he]

/-- **What an engine throws on is content**: a line of the network, whose timestamp is no moment. So
an engine is never stopped by a line of the link itself. -/
theorem content_of_throws {fault : Fault} (hopen : e.state = .handshaking ∨ e.state = .established)
    (h : e.onLineReceived now line = .error fault) :
    ∃ c, PeerRelay.contentOf line = some c ∧ ¬Node.Stamped line := by
  have hnot : ¬Node.Stamped line := by
    intro hstamped
    obtain ⟨r, hr⟩ := (onLineReceived_isOk_toEvent_iff now e hopen line).mpr
      ((toEvent_isOk_timestampField_iff line).mpr hstamped)
    rw [h] at hr
    cases hr
  rcases hparsed : (HostCommandCodec.stripPrefix line).map HostCommandCodec.parseBody with _ | c
  · refine absurd (fun seconds hseconds => ?_) hnot
    rw [timestampField, Option.map_eq_none_iff.mp hparsed] at hseconds
    cases hseconds
  · refine ⟨c, PeerRelay.contentOf_eq_some.mpr ⟨hparsed, ?_⟩, hnot⟩
    -- the verbs of a single link have no timestamp
    obtain ⟨body, hbody, rfl⟩ := Option.map_eq_some_iff.mp hparsed
    by_contra hlocal
    refine hnot fun seconds hseconds => ?_
    rw [timestampField, hbody] at hseconds
    dsimp only at hseconds
    rw [← timestamp?_parseBody] at hseconds
    generalize HostCommandCodec.parseBody body = c at hlocal hseconds
    cases c <;> first | exact absurd rfl hlocal | cases hseconds

end HostLinkEngine

/-! ### What the hosts are written -/

namespace HostLink

theorem writtenTo_append (host : RemoteHost) (l m : List Effect) :
    writtenTo host (l ++ m) = writtenTo host l ++ writtenTo host m := by
  cases host <;> exact List.filterMap_append

variable (links : Links) {now : DateTimeOffset} {hub : Hub} {line : Text}

/-- Events from the hosts are written to nobody. -/
theorem writtenTo_applyEvents (exceptPeerId : Option Text) {events : List ConversEvent}
    (hevents : ∀ event ∈ events, event.isLocal = false) (hping : .hostPing ∉ events)
    (host : RemoteHost) :
    writtenTo host (applyEvents links exceptPeerId now hub events).2.effects = [] := by
  cases host with
  | uplink => exact attempted_applyEvents links exceptPeerId now hub hevents hping
  | peer peerId => exact enqueuedTo_applyEvents links exceptPeerId now hub hevents peerId

theorem threw_fanOutToPeers (exceptPeerId : Option Text) (includeUplink : Bool)
    (command : HostCommand) :
    (fanOutToPeers links true exceptPeerId includeUplink command).threw = false := by
  rw [fanOutToPeers]
  split <;> rfl

/-- What a fan-out writes. -/
theorem writtenTo_fanOutToPeers (exceptPeerId : Option Text) (includeUplink : Bool)
    (command : HostCommand) (host : RemoteHost) :
    writtenTo host (fanOutToPeers links true exceptPeerId includeUplink command).effects =
      match host with
      | .uplink => if includeUplink && links.reachesUplink exceptPeerId then [command] else []
      | .peer peerId =>
        if peerId ∈ links.peers ∧ some peerId ≠ exceptPeerId then [command] else [] := by
  cases host with
  | uplink => exact attempted_fanOutToPeers links exceptPeerId includeUplink command
  | peer peerId => exact enqueuedTo_fanOutToPeers links exceptPeerId includeUplink command peerId

variable {e engine : HostLinkEngine} {step : EngineStep}

/-- A line of the uplink that the engine throws on is written to nobody. -/
theorem effects_receiveLine_of_throws {fault : Fault}
    (hread : e.onLineReceived now line = .error fault) :
    (receiveLine links now e hub line).2.2 = [] := by
  rw [receiveLine, hread]

/-- **What a line of the uplink writes to a peer**: its content, once the link is established. The
hub adds nothing to it, as it never sends what it hears. -/
theorem enqueuedTo_receiveLine (hread : e.onLineReceived now line = .ok (engine, step))
    (peerId : Text) :
    enqueuedTo peerId (receiveLine links now e hub line).2.2 =
      if engine.state = .established ∧ peerId ∈ links.peers ∧ peerId ≠ uplinkPeerId then
        (PeerRelay.contentOf line).toList
      else [] := by
  have hevents := HostLinkEngine.isLocal_of_mem_hubEvents hread
  have huplink : ∀ commands : List HostCommand,
      enqueuedTo peerId (commands.map (.uplink · true)) = [] := by
    intro commands
    simp [enqueuedTo, List.filterMap_map]
  have happlied : enqueuedTo peerId (applyStep links now hub step).2.effects = [] := by
    refine enqueuedTo_andThen (huplink _) ?_
    exact enqueuedTo_applyEvents links none now hub hevents peerId
  -- the relay, which does not throw
  have hthrew : (relayedLine links engine line).threw = false := by
    rw [relayedLine]
    split
    · split
      · exact threw_fanOutToPeers links _ _ _
      · rfl
    · rfl
  have hcopies : enqueuedTo peerId (relayedLine links engine line).effects =
      if engine.state = .established ∧ peerId ∈ links.peers ∧ peerId ≠ uplinkPeerId then
        (PeerRelay.contentOf line).toList
      else [] := by
    rw [relayedLine]
    by_cases hstate : engine.state = .established
    · rcases hpeers : links.peers.isEmpty with _ | _
      · rw [if_pos ⟨hstate, rfl⟩]
        rcases hcontent : PeerRelay.contentOf line with _ | command
        · simp [enqueuedTo]
        · dsimp only
          rw [enqueuedTo_fanOutToPeers]
          simp [hstate]
      · have hnil : links.peers = [] := List.isEmpty_iff.mp hpeers
        rw [if_neg (by simp), if_neg (by simp [hnil])]
        rfl
    · rw [if_neg (by simp [hstate]), if_neg (by simp [hstate])]
      rfl
  have hdone : ∀ relayed : Trace, relayed.threw = false →
      enqueuedTo peerId (relayed.andThen (applyStep links now hub step).2).effects =
        enqueuedTo peerId relayed.effects := by
    intro relayed hrelayed
    rw [Trace.effects_andThen, hrelayed, if_neg Bool.false_ne_true, enqueuedTo_append, happlied,
      List.append_nil]
  have hannounced : ∀ (threw : Bool) (h : Hub), enqueuedTo peerId (if threw then []
      else (Trace.calls (if step.handshakeCompleted then (onEstablished h).map (.uplink · true)
        else [])).effects) = [] := by
    intro threw h
    split
    · rfl
    · rw [Trace.effects_calls]
      split
      · exact huplink _
      · rfl
  rcases hdrop : step.dropReason with _ | reason
  · rw [receiveLine_of_keep links hub hread hdrop]
    dsimp only
    rw [Trace.effects_andThen, enqueuedTo_append]
    exact (congrArg₂ (· ++ ·) ((hdone _ hthrew).trans hcopies) (hannounced _ _)).trans
      (List.append_nil _)
  · rw [receiveLine_of_drop links hub hread (hdrop ▸ rfl)]
    exact (hdone _ hthrew).trans hcopies

/-- **Content of the uplink is not written back.** It is the half of the golden rule that has no
condition. -/
theorem attempted_receiveLine (hread : e.onLineReceived now line = .ok (engine, step))
    {command : HostCommand} (hcontent : PeerRelay.contentOf line = some command) :
    attempted (receiveLine links now e hub line).2.2 = [] := by
  have hevents := HostLinkEngine.isLocal_of_mem_hubEvents hread
  obtain ⟨-, hstep, hping⟩ := HostLinkEngine.onLineReceived_content hcontent hread
  have happlied : attempted (applyStep links now hub step).2.effects = [] := by
    rw [hstep]
    exact attempted_andThen rfl (attempted_applyEvents links none now hub hevents hping)
  have hdrop : step.dropReason = none := by rw [hstep]; rfl
  have hcompleted : step.handshakeCompleted = false := by rw [hstep]; rfl
  rw [receiveLine_of_keep links hub hread hdrop, hcompleted, if_neg Bool.false_ne_true]
  refine attempted_andThen (attempted_andThen ?_ happlied) rfl
  rw [relayedLine]
  split
  · rw [hcontent]
    exact (attempted_fanOutToPeers links _ false command).trans (if_neg (by simp))
  · rfl

end HostLink

namespace Node

open HostLink (writtenTo attempted enqueuedTo uplinkPeerId)

/-! ### The states of a run -/

/-- A session is where its handshake is: it registers and announces once its link is
established, and has submitted its early content when it reads on. -/
structure SessionOrderly (s : PeerSession) : Prop where
  registered : s.registered = true → s.engine.state = .established
  fresh : s.registered = false → s.engine.state = .handshaking ∧ s.phase = .receiving
  early : s.registered = true → s.phase = .receiving → s.earlyContent = []

/-- **The states of a run.** -/
structure Orderly (n : Node) : Prop where
  uplink : ∀ e, n.uplink = some e → e.state = .handshaking ∨ e.state = .established
  ids : ∀ id s, n.sessions.find? id = some s → ∃ k ≤ n.nextPeer, id = peerIdOf k
  sessions : ∀ id s, n.sessions.find? id = some s → SessionOrderly s
  queue : ∀ command peerId, HubWork.peer command peerId ∈ n.queue →
    PeerRelay.isLinkLocal command = false ∧ peerId ≠ uplinkPeerId

theorem peerIdOf_ne (k : ℕ) : peerIdOf k ≠ uplinkPeerId := by
  rintro h
  cases congrArg List.head? h

theorem peerIdOf_injective : Function.Injective peerIdOf := fun _ _ h =>
  decimal_natCast_injective (List.append_cancel_left h)

theorem orderly_new (options : HostLinkOptions) (hub : Hub) : Orderly (Node.new options hub) := by
  constructor
  · intro e he
    cases he
  · intro id s hs
    cases hs
  · intro id s hs
    cases hs
  · intro command peerId hmem
    cases hmem

variable {n : Node} {label : Label}

/-- An orderly node stays so under a change of the hub, of the uplink and of the queue. -/
theorem Orderly.congr {n' : Node} (h : Orderly n)
    (huplink : ∀ e, n'.uplink = some e → e.state = .handshaking ∨ e.state = .established)
    (hsessions : n'.sessions = n.sessions) (hnext : n'.nextPeer = n.nextPeer)
    (hqueue : ∀ command peerId, HubWork.peer command peerId ∈ n'.queue →
      PeerRelay.isLinkLocal command = false ∧ peerId ≠ uplinkPeerId) : Orderly n' := by
  refine ⟨huplink, ?_, ?_, hqueue⟩
  · rw [hsessions, hnext]
    exact h.ids
  · rw [hsessions]
    exact h.sessions

/-- A session of the node goes over to another state. -/
theorem Orderly.putSession (h : Orderly n) {old s : PeerSession} {id : Text}
    (hold : n.sessions.find? id = some old) (hid : s.id = old.id) (hs : SessionOrderly s) :
    Orderly (n.putSession s) := by
  have hkey : s.id = id := hid.trans (Table.key_of_find? hold)
  refine ⟨h.uplink, fun k t ht => ?_, fun k t ht => ?_, h.queue⟩
  · rw [Node.putSession, Table.find?_put] at ht
    split at ht
    · rename_i hk
      rw [hk, hkey]
      exact h.ids id old hold
    · exact h.ids k t ht
  · rw [Node.putSession, Table.find?_put] at ht
    split at ht
    · cases ht
      exact hs
    · exact h.sessions k t ht

/-- A session ends. -/
theorem Orderly.endSession (h : Orderly n) (peerId : Text) : Orderly (n.endSession peerId) := by
  have hfound : ∀ k t, (n.endSession peerId).sessions.find? k = some t →
      n.sessions.find? k = some t := by
    intro k t ht
    rw [Node.endSession, Table.find?_remove] at ht
    split at ht
    · cases ht
    · exact ht
  exact ⟨h.uplink, fun k t ht => h.ids k t (hfound k t ht),
    fun k t ht => h.sessions k t (hfound k t ht), h.queue⟩

/-- An item is put on the queue. -/
theorem Orderly.enqueueWork (h : Orderly n) {work : HubWork}
    (hwork : ∀ command peerId, work = .peer command peerId →
      PeerRelay.isLinkLocal command = false ∧ peerId ≠ uplinkPeerId) :
    Orderly (n.enqueueWork work) := by
  refine h.congr h.uplink rfl rfl fun command peerId hmem => ?_
  rcases List.mem_append.mp hmem with hmem | hmem
  · exact h.queue command peerId hmem
  · exact hwork command peerId (List.mem_singleton.mp hmem).symm

/-- A line is submitted. -/
theorem Orderly.submitContent (h : Orderly n) {peerId : Text} (hpeer : peerId ≠ uplinkPeerId)
    (line : Text) : Orderly (n.submitContent peerId line) := by
  rw [Node.submitContent]
  split
  · rename_i command hcontent
    refine h.enqueueWork fun c p heq => ?_
    cases heq
    exact ⟨(PeerRelay.contentOf_eq_some.mp hcontent).2, hpeer⟩
  · exact h

/-- The id of a session is that of no uplink. -/
theorem Orderly.ne_uplink (h : Orderly n) {id : Text} {s : PeerSession}
    (hs : n.sessions.find? id = some s) : id ≠ uplinkPeerId := by
  obtain ⟨k, -, rfl⟩ := h.ids id s hs
  exact peerIdOf_ne k

/-- A session of an orderly node has an open link. -/
theorem SessionOrderly.isOpen {s : PeerSession} (h : SessionOrderly s) :
    s.engine.state = .handshaking ∨ s.engine.state = .established := by
  rcases hreg : s.registered with _ | _
  · exact Or.inl (h.fresh hreg).1
  · exact Or.inr (h.registered hreg)

theorem SessionOrderly.ne_disconnected {s : PeerSession} (h : SessionOrderly s) :
    s.engine.state ≠ .disconnected := by
  rcases h.isOpen with hopen | hopen <;> rw [hopen] <;> nofun

/-- A line that a session takes leaves its engine in the state it was in, unless it completes the
handshake. -/
theorem SessionOrderly.state_of_line {s : PeerSession} (hs : SessionOrderly s)
    {now : DateTimeOffset} {line : Text} {engine : HostLinkEngine} {step : EngineStep}
    (hread : s.engine.onLineReceived now line = .ok (engine, step)) :
    engine.state = if step.handshakeCompleted then .established else s.engine.state :=
  (HostLinkEngine.state_of_line hs.ne_disconnected hread).1

/-- A session that does not read is registered. -/
theorem SessionOrderly.ne_false {s : PeerSession} (hs : SessionOrderly s)
    (hphase : s.phase ≠ .receiving) : s.registered ≠ false :=
  fun hfalse => hphase (hs.fresh hfalse).2

/-- The engine that a line of the uplink leaves has an open link. -/
theorem isOpen_receiveLine {links : HostLink.Links} {now : DateTimeOffset} {e e' : HostLinkEngine}
    {hub : Hub} {line : Text} (hopen : e.state = .handshaking ∨ e.state = .established)
    (h : (HostLink.receiveLine links now e hub line).1 = some e') :
    e'.state = .handshaking ∨ e'.state = .established := by
  rw [HostLink.receiveLine] at h
  rcases hread : e.onLineReceived now line with fault | ⟨engine, step⟩
  · rw [hread] at h
    cases h
  · rw [hread] at h
    dsimp only at h
    rcases hdrop : step.dropReason with _ | reason
    · rw [hdrop] at h
      cases h
      have hne : e.state ≠ .disconnected := by
        rcases hopen with hopen | hopen <;> rw [hopen] <;> rintro ⟨⟩
      rw [(HostLinkEngine.state_of_line hne hread).1]
      split
      · exact Or.inr rfl
      · exact hopen
    · rw [hdrop] at h
      cases h

/-- **Every step keeps a node orderly.** No id of a session is that of the uplink, and none is used
twice. -/
theorem Orderly.step (h : Orderly n) (label : Label) : Orderly (n.step label) := by
  obtain ⟨n', calls, hnext, hc⟩ := n.exists_change label
  rw [Node.step, hnext]
  -- the items behind the first of the queue
  have hrest {work : HubWork} {queue : List HubWork} (hqueue : n.queue = work :: queue) :
      ∀ command peerId, HubWork.peer command peerId ∈ queue →
        PeerRelay.isLinkLocal command = false ∧ peerId ≠ uplinkPeerId :=
    fun command peerId hmem => h.queue command peerId (hqueue ▸ List.mem_cons_of_mem _ hmem)
  cases hc with
  | idle => exact h
  | submitted event => exact h.enqueueWork fun command peerId heq => by cases heq
  | drained now hqueue | passed now hqueue | skipped now hqueue hnot =>
    exact h.congr h.uplink rfl rfl (hrest hqueue)
  | @answered peerId queue session now hqueue hfind hphase =>
    have hs := h.sessions peerId session hfind
    have hpopped : Orderly { n with queue := queue } := h.congr h.uplink rfl rfl (hrest hqueue)
    refine hpopped.putSession hfind rfl ⟨hs.registered, fun hbad => ?_, by rintro _ ⟨⟩⟩
    cases hphase.symm.trans (hs.fresh hbad).2
  | connected now hup hengine =>
    refine h.congr (fun e he => ?_) rfl rfl h.queue
    cases he
    cases hengine
    exact Or.inl rfl
  | heard now line hup =>
    -- an engine that a line does not drop is open still
    exact h.congr (fun e he => isOpen_receiveLine (h.uplink _ hup) he) rfl rfl h.queue
  | ticked now hup =>
    refine h.congr (fun e he => ?_) rfl rfl h.queue
    dsimp only at he
    split at he
    · cases he
    · cases he
      rw [HostLinkEngine.state_onTick]
      exact h.uplink _ hup
  | lost => exact h.congr (by rintro _ ⟨⟩) rfl rfl h.queue
  | accepted now lines hengine =>
    -- the new session is the next in number, and fresh
    refine ⟨h.uplink, fun id s hs => ?_, fun id s hs => ?_, h.queue⟩
    · dsimp only [Node.putSession] at hs
      rw [Table.find?_put] at hs
      split at hs
      · rename_i hid
        exact ⟨n.nextPeer + 1, le_refl _, hid⟩
      · obtain ⟨k, hk, hid⟩ := h.ids id s hs
        exact ⟨k, Nat.le_succ_of_le hk, hid⟩
    · dsimp only [Node.putSession] at hs
      rw [Table.find?_put] at hs
      split at hs
      · cases hs
        cases hengine
        exact ⟨by rintro ⟨⟩, fun _ => ⟨rfl, rfl⟩, by rintro ⟨⟩⟩
      · exact h.sessions id s hs
  | arrived line hfind =>
    obtain ⟨hregistered, hfresh, hearly⟩ := h.sessions _ _ hfind
    exact h.putSession hfind rfl ⟨hregistered, hfresh, hearly⟩
  | threw now hfind | dropped now hfind | peerDropped now hfind | peerLost hfind =>
    exact h.endSession _
  | @registered session line lines engine step now hfind hphase hinbox hread hdrop hcompleted =>
    have hstate := (h.sessions _ _ hfind).state_of_line hread
    rw [hcompleted, if_pos rfl] at hstate
    have hput : Orderly (n.putSession { session with
        inbox := lines, engine := engine, registered := true, phase := .awaitingSnapshot }) :=
      h.putSession hfind rfl ⟨fun _ => hstate, by rintro ⟨⟩, by rintro _ ⟨⟩⟩
    exact hput.enqueueWork fun command peerId heq => by cases heq
  | @relayed session line lines engine step now hfind hphase hinbox hread hdrop hcompleted
      hregistered =>
    have hs := h.sessions _ _ hfind
    have hstate := hs.state_of_line hread
    rw [hcompleted, if_neg Bool.false_ne_true] at hstate
    have hput : Orderly (n.putSession { session with inbox := lines, engine := engine }) := by
      refine h.putSession hfind rfl ⟨fun _ => ?_, fun hbad => ?_, hs.early⟩
      · exact hstate.trans (hs.registered hregistered)
      · cases hregistered.symm.trans hbad
    exact hput.submitContent (h.ne_uplink hfind) _
  | kept now hfind hphase hinbox hread hdrop hcompleted hregistered =>
    have hs := h.sessions _ _ hfind
    have hstate := hs.state_of_line hread
    rw [hcompleted, if_neg Bool.false_ne_true] at hstate
    obtain ⟨hhandshaking, hreceiving⟩ := hs.fresh hregistered
    refine h.putSession hfind rfl ⟨fun hbad => ?_, fun _ => ?_, fun hbad => ?_⟩
    · cases hregistered.symm.trans hbad
    · exact ⟨hstate.trans hhandshaking, hreceiving⟩
    · cases hregistered.symm.trans hbad
  | announced hfind hphase =>
    have hs := h.sessions _ _ hfind
    refine h.putSession hfind rfl ⟨hs.registered, fun hbad => ?_, by rintro _ ⟨⟩⟩
    exact absurd hbad (hs.ne_false (by rw [hphase]; rintro ⟨⟩))
  | @resubmitted session line lines hfind hphase hearly =>
    have hs := h.sessions _ _ hfind
    have hput : Orderly (n.putSession { session with earlyContent := lines }) := by
      refine h.putSession hfind rfl ⟨hs.registered, fun hbad => ?_, fun _ hbad => ?_⟩
      · exact absurd hbad (hs.ne_false (by rw [hphase]; rintro ⟨⟩))
      · cases hphase.symm.trans hbad
    exact hput.submitContent (h.ne_uplink hfind) _
  | began hfind hphase hearly =>
    have hs := h.sessions _ _ hfind
    refine h.putSession hfind rfl ⟨hs.registered, fun hbad => ?_, fun _ _ => hearly⟩
    exact absurd hbad (hs.ne_false (by rw [hphase]; rintro ⟨⟩))
  | @peerTicked session now hfind hphase hdrop =>
    -- a tick leaves the state of the engine alone
    obtain ⟨hregistered, hfresh, hearly⟩ := h.sessions _ _ hfind
    have hstate := HostLinkEngine.state_onTick now session.engine
    exact h.putSession hfind rfl ⟨fun hreg => hstate.trans (hregistered hreg),
      fun hreg => ⟨hstate.trans (hfresh hreg).1, (hfresh hreg).2⟩, hearly⟩

/-! ### What a step owes -/

/-- The commands of a peer session are for its peer. -/
theorem writtenTo_applyPeerStep {peerId : Text} (step : EngineStep) {host : RemoteHost}
    (hne : host ≠ .peer peerId) : writtenTo host (applyPeerStep peerId step) = [] := by
  rw [applyPeerStep]
  cases host with
  | uplink => simp [writtenTo, attempted, List.filterMap_map]
  | peer other =>
    have hother : peerId ≠ other := fun heq => hne (heq ▸ rfl)
    simp [writtenTo, enqueuedTo, List.filterMap_map, hother]

theorem Orderly.peer_ne_uplink (h : Orderly n) {peerId : Text} (hpeer : peerId ∈ n.links.peers) :
    peerId ≠ uplinkPeerId := by
  obtain ⟨s, hs, rfl⟩ := List.mem_map.mp hpeer
  exact h.ne_uplink (Table.mem_records.mp (List.mem_filter.mp hs).1)

/-- **Content of a peer goes to every other host**, once. It does not matter whether the hub can
make an event of it. -/
theorem writtenTo_applyPeerInbound {now : DateTimeOffset} {command : HostCommand} {origin : Text}
    (hcontent : PeerRelay.isLinkLocal command = false) (horigin : origin ≠ uplinkPeerId)
    (host : RemoteHost) :
    writtenTo host (HostLink.applyPeerInbound n.links now n.hub command origin).2 =
      if host ≠ .peer origin ∧ n.connected host then [command] else [] := by
  have hforwarded : PeerRelay.forwarded command = some command :=
    PeerRelay.forwarded_eq_some.mpr ⟨hcontent, rfl⟩
  have hcopy : writtenTo host
      (HostLink.fanOutToPeers n.links true (some origin) true command).effects =
        if host ≠ .peer origin ∧ n.connected host then [command] else [] := by
    rw [HostLink.writtenTo_fanOutToPeers]
    cases host with
    | uplink =>
      have hreaches : n.links.reachesUplink (some origin) = n.links.uplink := by
        simp [HostLink.Links.reachesUplink, horigin]
      dsimp only
      rw [hreaches, Bool.true_and]
      simp [connected]
    | peer peerId =>
      simp only [connected, ne_eq, Option.some.injEq, RemoteHost.peer.injEq, and_comm]
  have hrelayed : HostLink.relayedCommand n.links command origin =
      HostLink.fanOutToPeers n.links true (some origin) true command := by
    rw [HostLink.relayedCommand, hforwarded]
  -- the copy goes out first, and what the hub then does with the event writes nothing more
  rcases hevent : HostBridge.toEvent command with fault | event
  · rw [HostLink.applyPeerInbound_of_error n.links n.hub origin hevent, hrelayed]
    exact hcopy
  · rw [HostLink.applyPeerInbound_of_ok n.links n.hub origin hevent, hrelayed,
      HostLink.Trace.effects_andThen, HostLink.threw_fanOutToPeers, if_neg Bool.false_ne_true]
    have hquiet : writtenTo host (HostLink.applyEvents n.links (some origin) now n.hub
        event.toList).2.effects = [] := by
      refine HostLink.writtenTo_applyEvents n.links (some origin) (fun e he => ?_)
        (fun hping => ?_) host
      · rw [Option.mem_toList] at he
        exact (HostBridge.isLocal_of_toEvent (hevent.trans (congrArg _ he))).1
      · rw [Option.mem_toList] at hping
        have hping := (HostBridge.isLocal_of_toEvent (hevent.trans (congrArg _ hping))).2 rfl
        rw [hping] at hcontent
        cases hcontent
    rw [HostLink.writtenTo_append, hcopy, hquiet, List.append_nil]

/-- A session that waits for a line takes the first one. -/
theorem next_read {now : DateTimeOffset} {peerId line : Text} {lines : List Text}
    {session : PeerSession} (hfind : n.sessions.find? peerId = some session)
    (hphase : session.phase = .receiving) (hinbox : session.inbox = line :: lines) :
    n.next (.read now peerId) = n.readLine now { session with inbox := lines } line := by
  rw [next, hfind]
  dsimp only
  split
  · rename_i first rest _ hfirst
    cases hinbox.symm.trans hfirst
    rfl
  · rename_i hnot
    exact absurd hinbox (hnot line lines hphase)

/-- A step that hears nothing and deals with nothing owes nothing. -/
theorem RelaysRight.of_silent (hheard : n.heard label = none) (hhandled : n.handled label = none) :
    n.RelaysRight label :=
  ⟨fun _ _ h => absurd (hhandled.symm.trans h) nofun,
    fun _ _ h => absurd (hhandled.symm.trans h) nofun,
    fun _ _ h => absurd (hheard.symm.trans h) nofun⟩

/-- **A line of the uplink.** It goes to the peers, and not back to the parent. -/
theorem Orderly.relaysRight_uplinkLine (h : Orderly n) {now : DateTimeOffset} {line : Text}
    (hrelayable : n.Relayable (.uplinkLine now line)) : n.RelaysRight (.uplinkLine now line) := by
  rcases huplink : n.uplink with _ | e
  · have hheard : n.heard (.uplinkLine now line) = none := by simp [heard, huplink]
    refine .of_silent hheard ?_
    show n.received _ = none
    rw [received, hheard]
    rfl
  have hheard : n.heard (.uplinkLine now line) = some (.uplink, line) := by simp [heard, huplink]
  have hhandled : n.handled (.uplinkLine now line) =
      (PeerRelay.contentOf line).map (RemoteHost.uplink, ·) := by
    show n.received _ = _
    rw [received, hheard]
    rfl
  have heffects : n.effects (.uplinkLine now line) =
      (HostLink.receiveLine n.links now e n.hub line).2.2 := by
    rw [effects, next, huplink]
  refine ⟨fun origin command hcommand host => ?_, fun origin command hcommand => ?_,
    fun origin text htext hnone host hhost => ?_⟩
  · rw [hhandled] at hcommand
    obtain ⟨c, hcontent, hpair⟩ := Option.map_eq_some_iff.mp hcommand
    obtain ⟨rfl, rfl⟩ := Prod.mk.inj hpair
    rw [heffects]
    rcases hread : e.onLineReceived now line with fault | ⟨engine, step⟩
    · -- the exception is on the timestamp, so there is nobody to pass the command to
      rw [HostLink.effects_receiveLine_of_throws n.links hread]
      obtain ⟨-, -, hnot⟩ := HostLinkEngine.content_of_throws (h.uplink e huplink) hread
      have hpeers : n.links.peers = [] :=
        (hrelayable _ _ _ hheard hcontent).resolve_right fun hbad => hnot hbad.2
      cases host with
      | uplink => rfl
      | peer peerId => simp [writtenTo, enqueuedTo, connected, hpeers]
    · cases host with
      | uplink =>
        rw [if_neg (by simp)]
        exact HostLink.attempted_receiveLine n.links hread hcontent
      | peer peerId =>
        have hstate : engine.state = e.state := by
          rw [(HostLinkEngine.onLineReceived_content hcontent hread).1]
        refine (HostLink.enqueuedTo_receiveLine n.links hread peerId).trans ?_
        rw [hcontent, hstate]
        rcases hrelayable _ _ _ hheard hcontent with hpeers | ⟨⟨e', he', hestablished⟩, -⟩
        · simp [connected, hpeers]
        · obtain rfl : e = e' := Option.some.inj (huplink.symm.trans he')
          by_cases hpeer : peerId ∈ n.links.peers
          · rw [if_pos ⟨hestablished, hpeer, h.peer_ne_uplink hpeer⟩, if_pos ⟨by rintro ⟨⟩, hpeer⟩]
            rfl
          · rw [if_neg fun hbad => hpeer hbad.2.1, if_neg fun hbad => hpeer hbad.2]
  · rw [hhandled] at hcommand
    obtain ⟨c, hcontent, hpair⟩ := Option.map_eq_some_iff.mp hcommand
    obtain ⟨rfl, rfl⟩ := Prod.mk.inj hpair
    exact (PeerRelay.contentOf_eq_some.mp hcontent).2
  · obtain ⟨rfl, rfl⟩ := Prod.mk.inj (Option.some.inj (hheard.symm.trans htext))
    rw [hhandled, Option.map_eq_none_iff] at hnone
    rw [heffects]
    cases host with
    | uplink => exact absurd rfl hhost
    | peer peerId =>
      rcases hread : e.onLineReceived now line with fault | ⟨engine, step⟩
      · rw [HostLink.effects_receiveLine_of_throws n.links hread]
        rfl
      · refine (HostLink.enqueuedTo_receiveLine n.links hread peerId).trans ?_
        rw [hnone]
        exact ite_self _

/-- **A step is right** on an orderly node, when it is one that is relayed. The steps that are not
are those in which the link of the parent waits for its greeting. -/
theorem Orderly.relaysRight (h : Orderly n) (hrelayable : n.Relayable label) :
    n.RelaysRight label := by
  cases label with
  | uplinkLine now line => exact h.relaysRight_uplinkLine hrelayable
  | read now peerId =>
    refine ⟨by rintro _ _ ⟨⟩, by rintro _ _ ⟨⟩, fun origin line hheard _ host hhost => ?_⟩
    rcases hfind : n.sessions.find? peerId with _ | session
    · simp [heard, hfind] at hheard
    · rw [heard, hfind] at hheard
      dsimp only at hheard
      split at hheard
      · rename_i first rest hphase hinbox
        obtain ⟨rfl, rfl⟩ := Prod.mk.inj (Option.some.inj hheard)
        rw [effects, next_read hfind hphase hinbox]
        have hid : session.id = peerId := Table.key_of_find? hfind
        rcases n.readLine_cases now { session with inbox := rest } first with
          ⟨_, _, hnext⟩ | ⟨_, step, _, hnext, _⟩
        · rw [hnext]
          cases host <;> rfl
        · -- what the engine of a peer answers goes back to that peer only
          rw [hnext]
          exact writtenTo_applyPeerStep step (by rwa [hid])
      · cases hheard
  | drain now =>
    refine ⟨fun origin command hcommand host => ?_, fun origin command hcommand => ?_,
      by rintro _ _ ⟨⟩⟩
    · rw [handled] at hcommand
      split at hcommand
      · rename_i c peerId rest hqueue
        obtain ⟨rfl, rfl⟩ := Prod.mk.inj (Option.some.inj hcommand)
        obtain ⟨hcontent, hne⟩ := h.queue c peerId (by rw [hqueue]; simp)
        rw [effects, next, drain, hqueue]
        -- what the loop takes off the queue is the content that is dealt with
        exact writtenTo_applyPeerInbound hcontent hne host
      · cases hcommand
    · rw [handled] at hcommand
      split at hcommand
      · rename_i c peerId rest hqueue
        obtain ⟨rfl, rfl⟩ := Prod.mk.inj (Option.some.inj hcommand)
        exact (h.queue c peerId (by rw [hqueue]; simp)).1
      · cases hcommand
  | _ => exact .of_silent rfl rfl

/-! ### What waits -/

section Waiting

variable (peerId : Text)

theorem queuedFrom_append (queue queue' : List HubWork) :
    queuedFrom peerId (queue ++ queue') = queuedFrom peerId queue ++ queuedFrom peerId queue' :=
  List.filterMap_append

theorem earlyFrom_of_find? {s : PeerSession} (h : n.sessions.find? peerId = some s) :
    n.earlyFrom peerId = s.earlyContent.filterMap PeerRelay.contentOf := by
  rw [earlyFrom, h]

theorem earlyFrom_putSession (n : Node) (s : PeerSession) :
    (n.putSession s).earlyFrom peerId =
      if peerId = s.id then s.earlyContent.filterMap PeerRelay.contentOf
      else n.earlyFrom peerId := by
  by_cases hpeer : peerId = s.id
  · rw [if_pos hpeer]
    exact earlyFrom_of_find? peerId (by rw [Node.putSession, Table.find?_put, if_pos hpeer])
  · rw [if_neg hpeer, earlyFrom, Node.putSession, Table.find?_put_of_ne _ hpeer]
    rfl

/-- What waits once a session is in another state. -/
theorem waiting_putSession (n : Node) (s : PeerSession) :
    (n.putSession s).waiting (.peer peerId) = queuedFrom peerId n.queue ++
      if peerId = s.id then s.earlyContent.filterMap PeerRelay.contentOf
      else n.earlyFrom peerId :=
  congrArg (queuedFrom peerId n.queue ++ ·) (earlyFrom_putSession peerId n s)

/-- What waits once a session has ended. -/
theorem waiting_endSession (n : Node) (id : Text) :
    (n.endSession id).waiting (.peer peerId) = queuedFrom peerId n.queue ++
      if peerId = id then [] else n.earlyFrom peerId := by
  refine congrArg (queuedFrom peerId n.queue ++ ·) ?_
  show earlyFrom (n.endSession id) peerId = _
  rw [earlyFrom, Node.endSession, Table.find?_remove]
  by_cases hpeer : peerId = id
  · rw [if_pos hpeer, if_pos hpeer]
  · rw [if_neg hpeer, if_neg hpeer]
    rfl

/-- What is submitted waits on the queue. -/
theorem waiting_submitContent (n : Node) (id line : Text) :
    (n.submitContent id line).waiting (.peer peerId) = queuedFrom peerId n.queue ++
      (if id = peerId then (PeerRelay.contentOf line).toList else []) ++ n.earlyFrom peerId := by
  rw [Node.submitContent]
  rcases PeerRelay.contentOf line with _ | command
  · rw [Option.toList_none, ite_self, List.append_nil]
    rfl
  · have hlast : queuedFrom peerId [.peer command id] = if id = peerId then [command] else [] := by
      rw [queuedFrom, List.filterMap_cons]
      dsimp only
      split_ifs <;> rfl
    have hqueue : queuedFrom peerId (n.queue ++ [.peer command id]) =
        queuedFrom peerId n.queue ++ if id = peerId then [command] else [] := by
      rw [queuedFrom_append, hlast]
    exact congrArg (· ++ n.earlyFrom peerId) hqueue

/-- Work that is no command of a peer makes nothing wait. -/
theorem waiting_enqueueWork (n : Node) {work : HubWork} (hwork : queuedFrom peerId [work] = []) :
    (n.enqueueWork work).waiting (.peer peerId) = n.waiting (.peer peerId) := by
  have hqueue : queuedFrom peerId (n.queue ++ [work]) = queuedFrom peerId n.queue := by
    rw [queuedFrom_append, hwork, List.append_nil]
  exact congrArg (· ++ n.earlyFrom peerId) hqueue

end Waiting

/-- A session that reads has nothing waiting but lines of its handshake. -/
theorem SessionOrderly.early_of_drop {now : DateTimeOffset} {s : PeerSession} {line : Text}
    {engine : HostLinkEngine} {step : EngineStep} (hs : SessionOrderly s)
    (hphase : s.phase = .receiving) (hread : s.engine.onLineReceived now line = .ok (engine, step))
    (hdrop : step.dropReason.isSome = true) : s.earlyContent = [] := by
  rcases hreg : s.registered with _ | _
  · rw [HostLinkEngine.dropReason_of_handshaking (hs.fresh hreg).1 hread] at hdrop
    cases hdrop
  · exact hs.early hreg hphase

/-- **A line that a session reads** is submitted or waits, when it is content. Before the session is
registered it waits with the session, and then on the queue of the loop. -/
theorem Orderly.conserve_read (h : Orderly n) {now : DateTimeOffset} {id line : Text}
    {lines : List Text} {session : PeerSession} (hfind : n.sessions.find? id = some session)
    (hphase : session.phase = .receiving) (hinbox : session.inbox = line :: lines)
    (hstamped : ∀ command, PeerRelay.contentOf line = some command → Stamped line)
    (peerId : Text) :
    n.waiting (.peer peerId) ++ (if id = peerId then (PeerRelay.contentOf line).toList else []) =
      (n.step (.read now id)).waiting (.peer peerId) := by
  rw [Node.step, next_read hfind hphase hinbox]
  have hid : session.id = id := Table.key_of_find? hfind
  obtain ⟨s, hs⟩ : ∃ s, s = { session with inbox := lines } := ⟨_, rfl⟩
  have hsid : s.id = id := by rw [hs, ← hid]
  have horderly : SessionOrderly s := by
    obtain ⟨h1, h2, h3⟩ := h.sessions id session hfind
    rw [hs]
    exact ⟨h1, h2, h3⟩
  have hsphase : s.phase = .receiving := by rw [hs, ← hphase]
  have hearly : ∀ peerId, peerId = id →
      n.earlyFrom peerId = s.earlyContent.filterMap PeerRelay.contentOf := by
    rintro peerId rfl
    rw [earlyFrom_of_find? peerId hfind, hs]
  rw [← hs]
  -- what ends the session or completes its handshake is no content
  have hnone : ∀ {engine step}, s.engine.onLineReceived now line = .ok (engine, step) →
      step.dropReason.isSome = true ∨ step.handshakeCompleted = true →
        PeerRelay.contentOf line = none := by
    intro engine step hread hends
    rcases hcontent : PeerRelay.contentOf line with _ | command
    · rfl
    · rw [(HostLinkEngine.onLineReceived_content hcontent hread).2.1] at hends
      rcases hends with hends | hends <;> cases hends
  rcases n.readLine_cases now s line with
    ⟨fault, hread, hnext⟩ | ⟨engine, step, hread, -, ⟨hdrop, hnext⟩ | ⟨-, hcompleted, hnext⟩ |
      ⟨-, hcompleted, hreg, hnext⟩ | ⟨-, hcompleted, hreg, hnext⟩⟩
  · obtain ⟨command, hcontent, hnot⟩ := HostLinkEngine.content_of_throws horderly.isOpen hread
    exact absurd (hstamped command hcontent) hnot
  · rw [hnone hread (Or.inl hdrop), hnext, waiting_endSession, hsid, Option.toList_none, ite_self,
      List.append_nil]
    refine congrArg (queuedFrom peerId n.queue ++ ·) ?_
    by_cases hpeer : peerId = id
    · rw [if_pos hpeer, hearly peerId hpeer, horderly.early_of_drop hsphase hread hdrop]
      rfl
    · rw [if_neg hpeer]
  · rw [hnone hread (Or.inr hcompleted), hnext, waiting_enqueueWork _ _ rfl, waiting_putSession,
      hsid, Option.toList_none, ite_self, List.append_nil]
    refine congrArg (queuedFrom peerId n.queue ++ ·) ?_
    by_cases hpeer : peerId = id
    · rw [if_pos hpeer, hearly peerId hpeer]
    · rw [if_neg hpeer]
  · have hnothing := horderly.early hreg hsphase
    rw [hnext, waiting_submitContent, hsid, waiting, List.append_assoc, List.append_assoc]
    refine congrArg (queuedFrom peerId n.queue ++ ·) ?_
    rw [earlyFrom_putSession]
    by_cases hpeer : peerId = id
    · -- a registered session has no early content left when it reads
      rw [if_pos hpeer.symm, hearly peerId hpeer, hnothing]
      simp
    · dsimp only
      rw [if_neg (Ne.symm hpeer), if_neg hpeer, List.append_nil, List.nil_append]
  · rw [hnext, waiting_putSession, hsid, waiting, List.append_assoc]
    refine congrArg (queuedFrom peerId n.queue ++ ·) ?_
    by_cases hpeer : peerId = id
    · rw [if_pos hpeer, if_pos hpeer.symm, hearly peerId hpeer, List.filterMap_append]
      refine congrArg (_ ++ ·) ?_
      rcases hcontent : PeerRelay.contentOf line with _ | command
      · simp [hcontent]
      · simp [hcontent]
    · rw [if_neg hpeer, if_neg (Ne.symm hpeer), List.append_nil]

/-- **A session that goes on** submits its early content and keeps the rest. What waited with the
session now waits on the queue, in the same order. -/
theorem conserve_proceed {id : Text} {session : PeerSession}
    (hfind : n.sessions.find? id = some session) (peerId : Text) :
    (n.proceedSession session).1.waiting (.peer peerId) = n.waiting (.peer peerId) := by
  have hid : session.id = id := Table.key_of_find? hfind
  have hearly : ∀ peerId, peerId = id →
      n.earlyFrom peerId = session.earlyContent.filterMap PeerRelay.contentOf := by
    rintro peerId rfl
    exact earlyFrom_of_find? peerId hfind
  have hput : ∀ s : PeerSession, s.id = session.id → s.earlyContent = session.earlyContent →
      (n.putSession s).waiting (.peer peerId) = n.waiting (.peer peerId) := by
    intro s hs hcontent
    rw [waiting_putSession, hs, hid, hcontent]
    refine congrArg (queuedFrom peerId n.queue ++ ·) ?_
    by_cases hpeer : peerId = id
    · rw [if_pos hpeer, hearly peerId hpeer]
    · rw [if_neg hpeer]
  rcases n.proceedSession_cases session with ⟨command, commands, hphase, hnext⟩ |
    ⟨line, lines, hphase, hcontent, hnext⟩ | ⟨hphase, hcontent, hnext⟩ | hnext
  · rw [hnext]
    exact hput _ rfl rfl
  · rw [hnext]
    dsimp only
    rw [waiting_submitContent, earlyFrom_putSession, hid, waiting, List.append_assoc]
    refine congrArg (queuedFrom peerId n.queue ++ ·) ?_
    by_cases hpeer : peerId = id
    · rw [if_pos hpeer.symm, if_pos hpeer, hearly peerId hpeer, hcontent]
      rcases hline : PeerRelay.contentOf line with _ | command
      · rw [List.filterMap_cons_none hline]
        rfl
      · rw [List.filterMap_cons_some hline]
        rfl
    · rw [if_neg (Ne.symm hpeer), if_neg hpeer, List.nil_append]
  · rw [hnext]
    exact hput _ rfl rfl
  · rw [hnext]

/-- A session reads a line, or nothing happens. -/
theorem read_cases (n : Node) (now : DateTimeOffset) (id : Text) :
    (∃ session line lines, n.sessions.find? id = some session ∧ session.phase = .receiving ∧
      session.inbox = line :: lines ∧ n.heard (.read now id) = some (.peer id, line)) ∨
    n.heard (.read now id) = none ∧ n.step (.read now id) = n := by
  rw [heard, Node.step, next]
  rcases hfind : n.sessions.find? id with _ | session
  · exact Or.inr ⟨rfl, rfl⟩
  · dsimp only
    rcases hphase : session.phase with _ | _ | commands
    · rcases hinbox : session.inbox with _ | ⟨line, lines⟩
      · exact Or.inr ⟨rfl, rfl⟩
      · exact Or.inl ⟨session, line, lines, rfl, hphase, hinbox, rfl⟩
    · exact Or.inr ⟨rfl, rfl⟩
    · exact Or.inr ⟨rfl, rfl⟩

theorem ofHost_map (host origin : RemoteHost) (content : Option HostCommand) :
    ofHost host (content.map (origin, ·)) = if origin = host then content.toList else [] := by
  rcases content with _ | command
  · exact (ite_self _).symm
  · rfl

/-- What is received from a peer is not from the uplink. -/
theorem ofHost_uplink (n : Node) (label : Label) :
    ofHost .uplink (n.received label) = ofHost .uplink (n.handled label) := by
  cases label with
  | drain now =>
    rw [handled]
    split
    · rw [ofHost, if_neg RemoteHost.noConfusion]
      rfl
    · rfl
  | read now id =>
    rw [received]
    rcases n.read_cases now id with ⟨session, line, lines, -, -, -, hheard⟩ | ⟨hheard, -⟩
    · rw [hheard]
      exact (ofHost_map _ _ _).trans (if_neg RemoteHost.noConfusion)
    · rw [hheard]
      rfl
  | _ => rfl

/-- **A step that neither reads nor deals with a command of a peer** leaves what waits. Most steps
of a node are of this kind. -/
theorem Orderly.waiting_step (h : Orderly n) (hkeeps : n.KeepsPeers label)
    (hread : ∀ now id, label ≠ .read now id) (hdrain : ∀ now, label ≠ .drain now)
    (peerId : Text) : (n.step label).waiting (.peer peerId) = n.waiting (.peer peerId) := by
  -- a session that ends while it reads takes nothing with it
  have hends : ∀ {id session}, n.sessions.find? id = some session → session.phase = .receiving →
      session.registered = true →
        (n.endSession id).waiting (.peer peerId) = n.waiting (.peer peerId) := by
    intro id session hfind hphase hreg
    rw [waiting_endSession]
    refine congrArg (queuedFrom peerId n.queue ++ ·) ?_
    split
    · rename_i hpeer
      rw [hpeer, earlyFrom_of_find? id hfind, (h.sessions id session hfind).early hreg hphase]
      rfl
    · rfl
  have hput : ∀ {id session} (s : PeerSession), n.sessions.find? id = some session →
      s.id = session.id → s.earlyContent = session.earlyContent →
        (n.putSession s).waiting (.peer peerId) = n.waiting (.peer peerId) := by
    intro id session s hfind hid hearly
    rw [waiting_putSession]
    refine congrArg (queuedFrom peerId n.queue ++ ·) ?_
    split
    · rename_i hpeer
      rw [hpeer, hid, Table.key_of_find? hfind, earlyFrom_of_find? id hfind, hearly]
    · rfl
  cases label with
  | submit event => exact waiting_enqueueWork peerId n rfl
  | drain now => exact absurd rfl (hdrain now)
  | connect now =>
    show (n.next (.connect now)).1.waiting _ = _
    rw [next]
    split <;> rfl
  | uplinkLine now line =>
    show (n.next (.uplinkLine now line)).1.waiting _ = _
    rw [next]
    split <;> rfl
  | uplinkTick now =>
    show (n.next (.uplinkTick now)).1.waiting _ = _
    rw [next]
    split <;> rfl
  | uplinkLoss => rfl
  | accept now lines =>
    -- the id is new, so nothing of it waits
    refine congrArg (queuedFrom peerId n.queue ++ ·) ((earlyFrom_putSession peerId n _).trans ?_)
    split
    · rename_i hpeer
      rw [earlyFrom]
      rcases hfind : n.sessions.find? peerId with _ | session
      · rfl
      · obtain ⟨k, hk, hid⟩ := h.ids peerId session hfind
        have hsame := peerIdOf_injective (hid.symm.trans hpeer)
        omega
    · rfl
  | arrive id line =>
    show (n.next (.arrive id line)).1.waiting _ = _
    rw [next]
    split
    · rename_i session hfind
      exact hput _ hfind rfl rfl
    · rfl
  | read now id => exact absurd rfl (hread now id)
  | proceed id =>
    show (n.next (.proceed id)).1.waiting _ = _
    rw [next]
    split
    · rename_i session hfind
      exact conserve_proceed hfind peerId
    · rfl
  | peerTick now id =>
    show (n.next (.peerTick now id)).1.waiting _ = _
    rw [next]
    split
    · rename_i session hfind
      split
      · rename_i hphase
        dsimp only
        split
        · rename_i hdrop
          refine hends hfind hphase ((hkeeps session hfind).resolve_right fun hnone => ?_)
          rw [hnone] at hdrop
          cases hdrop
        · exact hput _ hfind rfl rfl
      · rfl
    · rfl
  | peerLoss id =>
    show (n.next (.peerLoss id)).1.waiting _ = _
    rw [next]
    split
    · rename_i session hfind
      split
      · rename_i hphase
        exact hends hfind hphase (hkeeps session hfind)
      · rfl
    · rfl

/-- **What is taken off the queue is dealt with.** The loop takes one item at a time, and finishes
with it in the same step. -/
theorem conserve_drain (n : Node) (now : DateTimeOffset) (peerId : Text) :
    n.waiting (.peer peerId) =
      ofHost (.peer peerId) (n.handled (.drain now)) ++
        (n.step (.drain now)).waiting (.peer peerId) := by
  rw [handled, Node.step, next, drain]
  rcases hqueue : n.queue with _ | ⟨work, queue⟩
  · rfl
  · have hpop : n.waiting (.peer peerId) = queuedFrom peerId [work] ++
        ({ n with queue := queue } : Node).waiting (.peer peerId) := by
      rw [waiting, hqueue, ← List.singleton_append, queuedFrom_append, List.append_assoc]
      rfl
    rw [hpop]
    cases work with
    | event event => rfl
    | snapshot id =>
      show ({ n with queue := queue } : Node).waiting (.peer peerId) = _
      dsimp only
      split
      · rename_i session hfind
        split
        · refine congrArg (queuedFrom peerId queue ++ ·) ?_
          refine ((earlyFrom_putSession peerId { n with queue := queue } _).trans ?_).symm
          split
          · rename_i hpeer
            rw [hpeer, Table.key_of_find? hfind]
            exact (earlyFrom_of_find? (n := n) id hfind).symm
          · rfl
        · rfl
      · rfl
    | peer command origin =>
      refine congrArg (· ++ _) ?_
      show queuedFrom peerId [.peer command origin] = if _ then _ else _
      by_cases horigin : origin = peerId
      · simp [queuedFrom, horigin]
      · simp [queuedFrom, horigin]

/-- **What a step receives is dealt with or waits**, and so is what waited. So nothing is lost,
doubled or out of order between the line and the relay. -/
theorem Orderly.conserve (h : Orderly n) (hrelayable : n.Relayable label)
    (hkeeps : n.KeepsPeers label) (host : RemoteHost) :
    n.waiting host ++ ofHost host (n.received label) =
      ofHost host (n.handled label) ++ (n.step label).waiting host := by
  cases host with
  | uplink =>
    rw [ofHost_uplink]
    exact (List.append_nil _).symm
  | peer peerId =>
    cases label with
    | drain now => exact (List.append_nil _).trans (conserve_drain n now peerId)
    | read now id =>
      rcases n.read_cases now id with
        ⟨session, line, lines, hfind, hphase, hinbox, hheard⟩ | ⟨hheard, hstep⟩
      · rw [received, hheard]
        refine Eq.trans (congrArg (_ ++ ·) ?_) (h.conserve_read hfind hphase hinbox
          (fun command hcontent => hrelayable _ command line hheard hcontent) peerId)
        refine (ofHost_map _ _ _).trans ?_
        by_cases hid : id = peerId
        · rw [if_pos hid, if_pos (congrArg _ hid)]
        · rw [if_neg hid, if_neg fun hbad => hid (RemoteHost.peer.inj hbad)]
      · rw [received, hheard, hstep]
        exact List.append_nil _
    | uplinkLine now line =>
      have hnone : ofHost (.peer peerId) (n.received (.uplinkLine now line)) = [] := by
        rw [received, heard]
        split
        · exact (ofHost_map _ _ _).trans (if_neg RemoteHost.noConfusion)
        · rfl
      show _ ++ ofHost _ (n.received _) = ofHost _ (n.received _) ++ _
      rw [hnone, List.append_nil, List.nil_append]
      exact (h.waiting_step hkeeps nofun nofun peerId).symm
    | _ => exact (List.append_nil _).trans (h.waiting_step hkeeps nofun nofun peerId).symm

/-- **The relay is exactly once and never echoes**, in every run of a new node whose steps
are relayed, with the peers fixed. -/
theorem relayedOnce_of_relayable (options : HostLinkOptions) (hub : Hub) {labels : List Label}
    (hkeeps : ∀ p ∈ Run.trace step (Node.new options hub) labels, KeepsPeers p.1 p.2)
    (hrelayable : ∀ p ∈ Run.trace step (Node.new options hub) labels, Relayable p.1 p.2) :
    RelayedOnce (Node.new options hub) labels := by
  obtain ⟨horderly, -⟩ := Run.invariant (orderly_new options hub) labels
    fun p _ h => h.step p.2
  refine ⟨fun p hp => (horderly p hp).relaysRight (hrelayable p hp), fun host => ?_⟩
  have hconserve := @Run.conserve _ _ step _ (fun n => waiting n host)
    (fun n label => ofHost host (received n label)) (fun n label => ofHost host (handled n label))
    _ labels fun p hp => (horderly p hp).conserve (hrelayable p hp) (hkeeps p hp) host
  refine Eq.trans ?_ hconserve
  cases host <;> rfl

/-- A node with two users. -/
def exampleNode : Node :=
  Node.new (HostLinkOptions.ofHostName "NODE".toList) HostLink.exampleHub

/-- A peer that sends presence ahead of its greeting, and a parent. -/
def exampleVisit : List Label :=
  [.accept HostLinkEngine.defaultTime ["/..CMSG gb7xyz 7 early".toList,
      "/..HOST GB7XYZ pdnconv1 amp".toList],
    .read HostLinkEngine.defaultTime (peerIdOf 1), .read HostLinkEngine.defaultTime (peerIdOf 1),
    .drain HostLinkEngine.defaultTime, .connect HostLinkEngine.defaultTime,
    .uplinkLine HostLinkEngine.defaultTime "/..HOST PARENT pdnconv1 amp".toList,
    .uplinkLine HostLinkEngine.defaultTime "/..CMSG gb7abc 7 hello".toList]

/-- The early message is relayed once the peer is registered, and the one of the parent goes to the
peer. -/
theorem relayedOnce_exampleVisit : RelayedOnce exampleNode exampleVisit := by
  refine relayedOnce_of_relayable _ _ ?_ ?_
  · decide +kernel
  · decide +kernel

/-- A registered peer, and a parent that sends a message ahead of its greeting. -/
def exampleEarly : List Label :=
  [.accept HostLinkEngine.defaultTime ["/..HOST GB7XYZ pdnconv1 amp".toList],
    .read HostLinkEngine.defaultTime (peerIdOf 1), .connect HostLinkEngine.defaultTime,
    .uplinkLine HostLinkEngine.defaultTime "/..CMSG gb7abc 7 hello".toList]

/-- **A message that the parent sends early** reaches no peer. The uplink relays nothing before it
is established. -/
theorem not_relayedOnce_early :
    (∀ p ∈ Run.trace step exampleNode exampleEarly, KeepsPeers p.1 p.2) ∧
      ¬RelayedOnce exampleNode exampleEarly := by
  refine ⟨by decide +kernel, fun honce => ?_⟩
  obtain ⟨n, hn⟩ : ∃ n, n = Run.final step exampleNode (exampleEarly.take 3) := ⟨_, rfl⟩
  obtain ⟨label, hlabel⟩ : ∃ label, label =
      Label.uplinkLine HostLinkEngine.defaultTime "/..CMSG gb7abc 7 hello".toList := ⟨_, rfl⟩
  have hright := honce.right (n, label) (by
    rw [hn, hlabel]
    simp [exampleEarly])
  have hpassed := hright.passed .uplink (.hostChannelMessage "gb7abc".toList 7 "hello".toList) (by
    rw [hn, hlabel]
    decide +kernel) (.peer (peerIdOf 1))
  have hnothing : writtenTo (.peer (peerIdOf 1)) (n.effects label) = [] := by
    rw [hn, hlabel]
    decide +kernel
  have hconnected : n.connected (.peer (peerIdOf 1)) := by
    rw [hn]
    decide +kernel
  rw [hnothing, if_pos ⟨RemoteHost.noConfusion, hconnected⟩] at hpassed
  cases hpassed

end Node

end Convers
