import Convers.Host.Relay

/-!
# The drop on a loop

A host that hears `/..LOOP` is to drop the link. The engine drops an established one. While it
waits for the handshake it hands the command to the hub like any other, and the hub answers with
an order to drop the uplink that the dispatch leaves to the engine. A session of a peer does not
even show it to the hub. So the link goes on being read:

| state | uplink | session of a peer |
|---|---|---|
| handshaking | goes on | goes on |
| established | is over | is read no more, and what is queued for it is still written |

The session hands its commands to a writer of its own (`Convers.PeerWire`), which empties the
queue before the transport is disposed of. `Convers.Node.drops_iff_of_loop` is when the link is
over at once.
-/

namespace Convers

/-- A well-formed `LOOP` line. -/
def IsLoop (line : Text) : Prop := ∃ detail, HostCommandCodec.parse line = .ok (.hostLoop detail)

namespace HostLinkEngine

variable {e : HostLinkEngine} {line : Text}

theorem parseBody_of_parse {c : HostCommand} (h : HostCommandCodec.parse line = .ok c) :
    (HostCommandCodec.stripPrefix line).map HostCommandCodec.parseBody = some c := by
  rw [HostCommandCodec.parse] at h
  rcases hbody : HostCommandCodec.stripPrefix line with _ | body
  · rw [hbody] at h
    cases h
  · rw [hbody] at h
    cases h
    rfl

/-- **What the engine makes of a loop**: it drops an established link, and hands the command on
while it waits for the handshake. So a link that waits stays open, which is what the comment on the
uplink does not expect. -/
theorem onLineReceived_of_isLoop (now : DateTimeOffset) (h : IsLoop line)
    (hopen : e.state ≠ .disconnected) :
    ∃ engine step detail, e.onLineReceived now line = .ok (engine, step) ∧
      engine.state = e.state ∧ step.outboundCommands = [] ∧ step.handshakeCompleted = false ∧
        step.hubEvents = [.hostLoop detail] ∧
          (step.dropReason.isSome = true ↔ e.state = .established) := by
  obtain ⟨detail, hdetail⟩ := h
  rw [onLineReceived_eq, parseBody_of_parse hdetail]
  rcases hstate : e.state with _ | _ | _
  · exact absurd hstate hopen
  · exact ⟨_, _, detail, rfl, rfl, rfl, rfl, rfl, by simp [EngineStep.none]⟩
  · exact ⟨_, _, detail, rfl, rfl, rfl, rfl, rfl, by simp⟩

end HostLinkEngine

namespace PeerRelay

/-- A loop is not relayed. -/
theorem contentOf_of_isLoop {line : Text} (h : IsLoop line) : contentOf line = none := by
  obtain ⟨detail, hdetail⟩ := h
  rcases hcontent : contentOf line with _ | c
  · rfl
  · obtain ⟨hparsed, hlocal⟩ := contentOf_eq_some.mp hcontent
    rw [HostLinkEngine.parseBody_of_parse hdetail, Option.some.injEq] at hparsed
    rw [← hparsed] at hlocal
    cases hlocal

end PeerRelay

namespace HostLink

/-! ### Without an uplink -/

section NoUplink

variable {links : Links} (exceptPeerId : Option Text) (now : DateTimeOffset) (h : Hub)
  (hnone : links.uplink = false)

include hnone

theorem reachesUplink_of_not : links.reachesUplink exceptPeerId = false := by
  rw [Links.reachesUplink, hnone, Bool.false_and]

/-- Nothing is put to an uplink that is not there. -/
theorem attempted_dispatchActions_of_not (succeeds : ℕ → Bool) (actions : List ConversAction) :
    attempted (dispatchActions links exceptPeerId succeeds actions).effects = [] := by
  have hreaches := reachesUplink_of_not exceptPeerId hnone
  induction actions generalizing succeeds with
  | nil => rfl
  | cons a actions ih =>
    by_cases hdeliver : a.isDeliver = true
    · have hone : Hub.Deliveries [a] := fun b hb => List.mem_singleton.mp hb ▸ hdeliver
      rw [← List.singleton_append, dispatchActions_append links exceptPeerId succeeds hone]
      exact attempted_andThen rfl (ih succeeds)
    · by_cases hcontent : a.isContent = true
      · obtain ⟨command, hcommand⟩ : ∃ command, HostBridge.toHostCommand a = some command := by
          cases a <;> first | exact ⟨_, rfl⟩ | cases hcontent
        rw [dispatchActions_cons links exceptPeerId succeeds hcontent hcommand, hreaches]
        refine attempted_andThen (attempted_andThen rfl ?_) (ih _)
        rw [attempted_fanOutToPeers]
        rfl
      · cases a with
        | dropUplink reason => exact ih succeeds
        | sendPong time =>
          rw [dispatchActions]
          · simp only [HostBridge.toHostCommand, hreaches]
            exact attempted_andThen (attempted_andThen rfl rfl) (ih _)
          · rintro reason ⟨⟩
        | _ => first | exact absurd rfl hdeliver | exact absurd rfl hcontent

theorem attempted_applyEvents_of_not (events : List ConversEvent) :
    attempted (applyEvents links exceptPeerId now h events).2.effects = [] := by
  induction events generalizing h with
  | nil => rfl
  | cons event events ih =>
    rw [applyEvents]
    split
    · rfl
    · exact attempted_andThen (attempted_andThen rfl
        (attempted_dispatchActions_of_not exceptPeerId hnone _ _)) (ih _)

theorem attempted_drainLocalEvent_of_not (event : ConversEvent) :
    attempted (drainLocalEvent links isLoggableLocal allSucceed now h event).2.effects = [] := by
  rcases hfault : (h.advance now event).fault with _ | fault
  · rw [drainLocalEvent_of_ok links isLoggableLocal allSucceed now hfault]
    exact attempted_andThen (attempted_dispatchActions_of_not none hnone _ _) (attempted_logOf ..)
  · simp only [drainLocalEvent, hfault]
    rfl

theorem attempted_applyPeerInbound_of_not (command : HostCommand) (originPeerId : Text) :
    attempted (applyPeerInbound links now h command originPeerId).2 = [] := by
  have hrelayed : attempted (relayedCommand links command originPeerId).effects = [] := by
    rw [relayedCommand]
    split
    · rw [attempted_fanOutToPeers, reachesUplink_of_not _ hnone]
      rfl
    · rfl
  rcases hevent : HostBridge.toEvent command with fault | event
  · rw [applyPeerInbound_of_error links h originPeerId hevent]
    exact hrelayed
  · rw [applyPeerInbound_of_ok links h originPeerId hevent]
    exact attempted_andThen hrelayed (attempted_applyEvents_of_not _ now h hnone _)

end NoUplink

/-- **The uplink on a loop**: nothing is written, and the connection is over if the link was
established. What the hub makes of it is dispatched, and that is nothing. -/
theorem receiveLine_of_isLoop (links : Links) (now : DateTimeOffset) (h : Hub) {e : HostLinkEngine}
    {line : Text} (hloop : IsLoop line) (hopen : e.state ≠ .disconnected) :
    attempted (receiveLine links now e h line).2.2 = [] ∧
      ((receiveLine links now e h line).1 = none ↔ e.state = .established) := by
  obtain ⟨engine, step, detail, hread, hstate, hcommands, hcompleted, hevents, hdrop⟩ :=
    HostLinkEngine.onLineReceived_of_isLoop now hloop hopen
  have happlied : attempted (applyStep links now h step).2.effects = [] := by
    rw [applyStep, hcommands, hevents]
    refine attempted_andThen rfl (attempted_applyEvents links none now h ?_ ?_)
    · rintro event hevent
      rw [List.mem_singleton.mp hevent]
      rfl
    · rintro hping
      cases List.mem_singleton.mp hping
  have hrelayed : attempted (relayedLine links engine line).effects = [] := by
    rw [relayedLine_of_none links (PeerRelay.contentOf_of_isLoop hloop)]
    rfl
  rw [← hdrop]
  rcases hreason : step.dropReason with _ | reason
  · rw [receiveLine_of_keep links h hread hreason, hcompleted, if_neg Bool.false_ne_true]
    exact ⟨attempted_andThen (attempted_andThen hrelayed happlied) rfl, by simp⟩
  · rw [receiveLine_of_drop links h hread (hreason ▸ rfl)]
    exact ⟨attempted_andThen hrelayed happlied, by simp⟩

end HostLink

namespace Node

open HostLink (attempted enqueuedTo)

/-! ### The uplink -/

/-- A connection to the parent begins. -/
def Label.isConnect : Label → Bool
  | .connect _ => true
  | _ => false

/-- The uplink reads a line. -/
def readsUplink (n : Node) : Label → Bool
  | .uplinkLine _ _ => n.uplink.isSome
  | _ => false

/-- The connection to the parent is over: until the next one begins, nothing is read from it
and nothing is written to it. -/
def UplinkOver (n : Node) : Prop :=
  ∀ labels : List Label, (∀ label ∈ labels, label.isConnect = false) →
    ∀ p ∈ Run.trace step n labels,
      p.1.readsUplink p.2 = false ∧ attempted (p.1.effects p.2) = []

section Uplink

variable {n : Node} {label : Label}

theorem attempted_applyPeerStep (peerId : Text) (step : EngineStep) :
    attempted (applyPeerStep peerId step) = [] := by
  simp [applyPeerStep, attempted, List.filterMap_map]

/-- **Without an uplink a step writes nothing to it**, and there is none after it. A link that is
down is silent until it is made anew. -/
theorem uplink_step_of_none (hnone : n.uplink = none) (hlabel : label.isConnect = false) :
    (n.step label).uplink = none ∧ attempted (n.effects label) = [] := by
  have hlinks : n.links.uplink = false := by rw [links, hnone]; rfl
  -- a session that relays puts its work on the queue and touches no engine
  have hsubmit (m : Node) (peerId line : Text) :
      (m.submitContent peerId line).uplink = m.uplink := by
    rw [submitContent]
    split
    · rfl
    · rfl
  rw [Node.step, effects]
  cases label with
  | connect now => cases hlabel
  | submit event => exact ⟨hnone, rfl⟩
  | drain now =>
    rw [next, drain]
    rcases n.queue with _ | ⟨work, queue⟩
    · exact ⟨hnone, rfl⟩
    · cases work with
      | event event =>
        -- the dispatch asks whether the uplink is there before it calls it
        exact ⟨hnone, HostLink.attempted_drainLocalEvent_of_not now n.hub hlinks event⟩
      | snapshot peerId =>
        dsimp only
        split
        · split
          · exact ⟨hnone, rfl⟩
          · exact ⟨hnone, rfl⟩
        · exact ⟨hnone, rfl⟩
      | peer command originPeerId =>
        exact ⟨hnone,
          HostLink.attempted_applyPeerInbound_of_not now n.hub hlinks command originPeerId⟩
  | uplinkLine now line =>
    simp only [next, hnone]
    exact ⟨trivial, rfl⟩
  | uplinkTick now =>
    simp only [next, hnone]
    exact ⟨trivial, rfl⟩
  | uplinkLoss => exact ⟨rfl, rfl⟩
  | accept now lines => exact ⟨hnone, attempted_applyPeerStep _ _⟩
  | arrive peerId line =>
    rw [next]
    split
    · exact ⟨hnone, rfl⟩
    · exact ⟨hnone, rfl⟩
  | read now peerId =>
    rw [next]
    split
    · rename_i session hfind
      split
      · rename_i line lines hphase hinbox
        rcases n.readLine_cases now { session with inbox := lines } line with
          ⟨_, _, hnext⟩ | ⟨engine, step, hread, heffects, ⟨_, hnext⟩ | ⟨_, _, hnext⟩ |
            ⟨_, _, _, hnext⟩ | ⟨_, _, _, hnext⟩⟩
        · rw [hnext]
          exact ⟨hnone, rfl⟩
        all_goals
          rw [heffects, hnext]
          exact ⟨by first | exact hnone | exact (hsubmit _ _ _).trans hnone,
            attempted_applyPeerStep _ _⟩
      · exact ⟨hnone, rfl⟩
    · exact ⟨hnone, rfl⟩
  | proceed peerId =>
    rw [next]
    split
    · rename_i session hfind
      rcases n.proceedSession_cases session with ⟨command, commands, _, hnext⟩ |
        ⟨line, lines, _, _, hnext⟩ | ⟨_, _, hnext⟩ | hnext
      · rw [hnext]
        exact ⟨hnone, rfl⟩
      · rw [hnext]
        exact ⟨(hsubmit _ _ _).trans hnone, rfl⟩
      · rw [hnext]
        exact ⟨hnone, rfl⟩
      · rw [hnext]
        exact ⟨hnone, rfl⟩
    · exact ⟨hnone, rfl⟩
  | peerTick now peerId =>
    rw [next]
    split
    · split
      · dsimp only
        split
        · exact ⟨hnone, attempted_applyPeerStep _ _⟩
        · exact ⟨hnone, attempted_applyPeerStep _ _⟩
      · exact ⟨hnone, rfl⟩
    · exact ⟨hnone, rfl⟩
  | peerLoss peerId =>
    rw [next]
    split
    · split
      · exact ⟨hnone, rfl⟩
      · exact ⟨hnone, rfl⟩
    · exact ⟨hnone, rfl⟩

/-- **The connection is over when there is no engine left.** So whether a link is up can be seen of
the state of the node. -/
theorem uplinkOver_iff : n.UplinkOver ↔ n.uplink = none := by
  constructor
  · intro hover
    rcases hup : n.uplink with _ | engine
    · rfl
    · -- the next line would be read
      have hread := (hover [.uplinkLine HostLinkEngine.defaultTime []]
        (fun _ h => List.mem_singleton.mp h ▸ rfl) (n, _) List.mem_cons_self).1
      rw [readsUplink, hup] at hread
      cases hread
  · intro hnone labels hlabels p hp
    have hstep : ∀ p ∈ Run.trace step n labels, p.2.isConnect = false := fun p hp =>
      hlabels p.2 (Run.mem_of_mem_trace hp)
    obtain ⟨hall, -⟩ := Run.invariant (I := fun m : Node => m.uplink = none) hnone labels
      fun p hp hm => (uplink_step_of_none hm (hstep p hp)).1
    have hup : p.1.uplink = none := hall p hp
    refine ⟨?_, (uplink_step_of_none hup (hstep p hp)).2⟩
    rw [readsUplink.eq_def]
    split
    · rw [hup]
      rfl
    · rfl

end Uplink

/-! ### The session of a peer -/

section Peer

variable {n : Node} {peerId : Text}

/-- The session of a peer is over, and its id is not given out again. -/
structure Closed (n : Node) (peerId : Text) : Prop where
  session : n.sessions.find? peerId = none
  id : ∃ k ≤ n.nextPeer, peerId = peerIdOf k

theorem Closed.congr {n' : Node} (h : n.Closed peerId) (hsessions : n'.sessions = n.sessions)
    (hnext : n'.nextPeer = n.nextPeer) : n'.Closed peerId := by
  refine ⟨?_, ?_⟩
  · rw [hsessions]
    exact h.session
  · rw [hnext]
    exact h.id

theorem Closed.putSession (h : n.Closed peerId) {s old : PeerSession} {id : Text}
    (hold : n.sessions.find? id = some old) (hid : s.id = old.id) :
    (n.putSession s).Closed peerId := by
  refine ⟨?_, h.id⟩
  have hne : peerId ≠ s.id := by
    rintro rfl
    rw [hid, (Table.key_of_find? hold : old.id = id)] at h
    cases h.session.symm.trans hold
  rw [Node.putSession, Table.find?_put]
  exact (if_neg hne).trans h.session

theorem Closed.endSession (h : n.Closed peerId) (id : Text) : (n.endSession id).Closed peerId := by
  refine ⟨?_, h.id⟩
  rw [Node.endSession, Table.find?_remove]
  split
  · rfl
  · exact h.session

theorem Closed.enqueueWork (h : n.Closed peerId) (work : HubWork) :
    (n.enqueueWork work).Closed peerId := h.congr rfl rfl

theorem Closed.submitContent (h : n.Closed peerId) (id line : Text) :
    (n.submitContent id line).Closed peerId := by
  rw [Node.submitContent]
  split
  · exact h.enqueueWork _
  · exact h

/-- **A session that is over stays so.** Its number is not given again, so no other session takes
its place. -/
theorem Closed.step (h : n.Closed peerId) (label : Label) : (n.step label).Closed peerId := by
  rw [Node.step]
  cases label with
  | submit event => exact h.congr rfl rfl
  | drain now =>
    rw [next, drain]
    rcases n.queue with _ | ⟨work, queue⟩
    · exact h
    · cases work with
      | event event => exact h.congr rfl rfl
      | peer command originPeerId => exact h.congr rfl rfl
      | snapshot id =>
        have hpopped : Closed { n with queue := queue } peerId := h.congr rfl rfl
        dsimp only
        split
        · rename_i session hfind
          split
          · exact hpopped.putSession (s := { session with
              phase := .announcing (presence n.hub) }) hfind rfl
          · exact hpopped
        · exact hpopped
  | connect now =>
    rw [next]
    split
    · exact h
    · exact h.congr rfl rfl
  | uplinkLine now line | uplinkTick now =>
    rw [next]
    split
    · exact h.congr rfl rfl
    · exact h
  | uplinkLoss => exact h.congr rfl rfl
  | accept now lines =>
    -- a new session has a number that was not given before, so it is another one
    obtain ⟨k, hk, hid⟩ := h.id
    rw [next]
    refine ⟨?_, k, Nat.le_succ_of_le hk, hid⟩
    have hne : peerId ≠ peerIdOf (n.nextPeer + 1) := by
      rintro heq
      have hk' := peerIdOf_injective (hid.symm.trans heq)
      omega
    dsimp only [Node.putSession]
    rw [Table.find?_put]
    exact (if_neg hne).trans h.session
  | arrive id line =>
    rw [next]
    split
    · rename_i session hfind
      exact h.putSession (s := { session with inbox := session.inbox ++ [line] }) hfind rfl
    · exact h
  | read now id =>
    rw [next]
    split
    · rename_i session hfind
      split
      · rename_i line lines hphase hinbox
        -- the session that reads is there, so it is not the one that ended
        have hput {s : PeerSession} (hs : s.id = session.id) : (n.putSession s).Closed peerId :=
          h.putSession hfind hs
        rcases n.readLine_cases now { session with inbox := lines } line with
          ⟨_, _, hnext⟩ | ⟨engine, step, hread, _, ⟨_, hnext⟩ | ⟨_, _, hnext⟩ |
            ⟨_, _, _, hnext⟩ | ⟨_, _, _, hnext⟩⟩
        · rw [hnext]
          exact h.endSession _
        · rw [hnext]
          exact h.endSession _
        · rw [hnext]
          refine Closed.enqueueWork ?_ _
          exact hput rfl
        · rw [hnext]
          refine Closed.submitContent ?_ _ _
          exact hput rfl
        · rw [hnext]
          exact hput rfl
      · exact h
    · exact h
  | proceed id =>
    rw [next]
    split
    · rename_i session hfind
      have hput {s : PeerSession} (hs : s.id = session.id) : (n.putSession s).Closed peerId :=
        h.putSession hfind hs
      rcases n.proceedSession_cases session with ⟨command, commands, _, hnext⟩ |
        ⟨line, lines, _, _, hnext⟩ | ⟨_, _, hnext⟩ | hnext
      · rw [hnext]
        exact hput rfl
      · rw [hnext]
        refine Closed.submitContent ?_ _ _
        exact hput rfl
      · rw [hnext]
        exact hput rfl
      · rw [hnext]
        exact h
    · exact h
  | peerTick now id =>
    rw [next]
    split
    · rename_i session hfind
      split
      · dsimp only
        split
        · exact h.endSession id
        · exact h.putSession (s := { session with engine := (session.engine.onTick now).1 })
            hfind rfl
      · exact h
    · exact h
  | peerLoss id =>
    rw [next]
    split
    · split
      · exact h.endSession id
      · exact h
    · exact h

/-- **A session on a loop**: nothing is handed to its writer, and it ends if the link was
established. It is the same as on the uplink, with a writer behind it. -/
theorem read_of_isLoop (h : Orderly n) (now : DateTimeOffset) {s : PeerSession} {line : Text}
    {lines : List Text} (hs : n.sessions.find? peerId = some s) (hphase : s.phase = .receiving)
    (hinbox : s.inbox = line :: lines) (hloop : IsLoop line) :
    n.effects (.read now peerId) = [] ∧
      (s.engine.state = .established → n.step (.read now peerId) = n.endSession peerId) ∧
        (s.engine.state ≠ .established → ∃ s',
          (n.step (.read now peerId)).sessions.find? peerId = some s' ∧ s'.phase = .receiving) := by
  have hid : s.id = peerId := Table.key_of_find? hs
  obtain ⟨engine, step, detail, hread, hstate, hcommands, hcompleted, hevents, hdrop⟩ :=
    HostLinkEngine.onLineReceived_of_isLoop now hloop (h.sessions peerId s hs).ne_disconnected
  have hquiet : applyPeerStep s.id step = [] := by
    rw [applyPeerStep, hcommands, hevents]
    rfl
  have hnext : n.next (.read now peerId) = n.readLine now { s with inbox := lines } line := by
    rw [next, hs]
    dsimp only
    rw [hphase, hinbox]
  have hline : n.readLine now { s with inbox := lines } line =
      if step.dropReason.isSome then (n.endSession peerId, [])
      else if s.registered then
        ((n.putSession { s with inbox := lines, engine := engine }).submitContent peerId line, [])
      else (n.putSession { s with
        inbox := lines, engine := engine, earlyContent := s.earlyContent ++ [line] }, []) := by
    rw [readLine, hread]
    dsimp only
    rw [hquiet, hcompleted, hid]
    rcases step.dropReason with _ | reason
    · rfl
    · rfl
  have hsubmit (m : Node) (id text : Text) : (m.submitContent id text).sessions = m.sessions := by
    rw [Node.submitContent]
    split
    · rfl
    · rfl
  rw [effects, Node.step, hnext, hline]
  refine ⟨?_, fun hest => ?_, fun hest => ?_⟩
  · split
    · rfl
    · split
      · rfl
      · rfl
  · rw [if_pos (hdrop.mpr hest)]
  · rw [if_neg (mt hdrop.mp hest)]
    split
    · refine ⟨{ s with inbox := lines, engine := engine }, ?_, hphase⟩
      rw [hsubmit, Node.putSession, Table.find?_put]
      exact if_pos hid.symm
    · refine ⟨{ s with
        inbox := lines, engine := engine, earlyContent := s.earlyContent ++ [line] }, ?_, hphase⟩
      rw [Node.putSession, Table.find?_put]
      exact if_pos hid.symm

end Peer

end Node

/-! ### The writer of a session -/

/-- A node, with the queue of the writer of one session: `_outbound`, and whether
`WriterLoopAsync` still runs. -/
structure PeerWire where
  node : Node
  outbound : List HostCommand
  writing : Bool

namespace PeerWire

open HostLink (attempted enqueuedTo)

/-- What can happen next. -/
inductive Label where
  | node (label : Node.Label)
  /-- The writer takes the next command off its queue and sends it; it ends when that fails. -/
  | write (succeeds : Bool)

/-- The session is there: its queue takes commands until it ends. -/
def takes (peerId : Text) (n : Node) : Bool := (n.sessions.find? peerId).isSome

/-- One step. -/
def step (peerId : Text) (w : PeerWire) : Label → PeerWire
  | .node label =>
    let node := w.node.step label
    { w with
      node := node
      outbound := if takes peerId w.node || takes peerId node then
        w.outbound ++ enqueuedTo peerId (w.node.effects label) else w.outbound }
  | .write succeeds =>
    match w.outbound with
    | _ :: outbound =>
      if w.writing then { w with outbound := outbound, writing := succeeds } else w
    | [] => w

/-- The session reads a line. -/
def reads (peerId : Text) (w : PeerWire) : Label → Bool
  | .node (.read _ id) => id = peerId && (w.node.sessions.find? peerId).any fun s =>
    s.phase = .receiving && !s.inbox.isEmpty
  | _ => false

/-- The command that is written to the peer. -/
def written (w : PeerWire) : Label → Option HostCommand
  | .write _ => if w.writing then w.outbound.head? else none
  | _ => none

/-- The connection to the peer is over: nothing more is read from it and nothing is written to
it. -/
def Over (peerId : Text) (w : PeerWire) : Prop :=
  ∀ labels : List Label, ∀ p ∈ Run.trace (step peerId) w labels,
    p.1.reads peerId p.2 = false ∧ p.1.written p.2 = none

variable {w : PeerWire} {peerId : Text}

/-- **The connection is over when the session is and its writer has nothing to do.** A writer that
is at work still has what was handed to it before. -/
theorem over_of_closed (hclosed : w.node.Closed peerId)
    (hidle : w.outbound = [] ∨ w.writing = false) : w.Over peerId := by
  have hstep (v : PeerWire) (label : Label)
      (hv : v.node.Closed peerId ∧ (v.outbound = [] ∨ v.writing = false)) :
      (v.step peerId label).node.Closed peerId ∧
        ((v.step peerId label).outbound = [] ∨ (v.step peerId label).writing = false) := by
    obtain ⟨hv, hidle⟩ := hv
    cases label with
    | node label =>
      have hafter := hv.step label
      have htakes : (takes peerId v.node || takes peerId (v.node.step label)) = false := by
        rw [takes, takes, hv.session, hafter.session]
        rfl
      refine ⟨hafter, ?_⟩
      rw [step, htakes, if_neg Bool.false_ne_true]
      exact hidle
    | write succeeds =>
      rw [step]
      rcases hidle with hempty | hended
      · rw [hempty]
        exact ⟨hv, Or.inl hempty⟩
      · rw [hended]
        split
        · exact ⟨hv, Or.inr hended⟩
        · exact ⟨hv, Or.inr hended⟩
  intro labels p hp
  obtain ⟨hclosed, hidle⟩ : p.1.node.Closed peerId ∧ (p.1.outbound = [] ∨ p.1.writing = false) :=
    (Run.invariant (I := fun v : PeerWire => v.node.Closed peerId ∧
      (v.outbound = [] ∨ v.writing = false)) ⟨hclosed, hidle⟩ labels
        fun p _ hv => hstep p.1 p.2 hv).1 p hp
  constructor
  · rw [reads.eq_def]
    split
    · rw [hclosed.session, Option.any_none, Bool.and_false]
    · rfl
  · rw [written.eq_def]
    split
    · rcases hidle with hempty | hended
      · rw [hempty, List.head?_nil, ite_self]
      · rw [hended, if_neg Bool.false_ne_true]
    · rfl

/-- A command that waits is written. -/
theorem idle_of_over (hover : w.Over peerId) : w.outbound = [] ∨ w.writing = false := by
  have hwritten := (hover [.write true] (w, .write true) List.mem_cons_self).2
  rw [written] at hwritten
  rcases hwriting : w.writing with _ | _
  · exact Or.inr rfl
  · rw [hwriting, if_pos rfl, List.head?_eq_none_iff] at hwritten
    exact Or.inl hwritten

/-- A session that receives reads the next line. -/
theorem not_over_of_receiving {s : PeerSession} (hs : w.node.sessions.find? peerId = some s)
    (hphase : s.phase = .receiving) : ¬w.Over peerId := by
  intro hover
  have hread := (hover [.node (.arrive peerId []), .node (.read HostLinkEngine.defaultTime peerId)]
    (w.step peerId (.node (.arrive peerId [])), .node (.read HostLinkEngine.defaultTime peerId))
      (List.mem_cons_of_mem _ List.mem_cons_self)).1
  have harrived : ((w.step peerId (.node (.arrive peerId []))).node.sessions.find? peerId) =
      some { s with inbox := s.inbox ++ [[]] } := by
    rw [step, Node.step, Node.next, hs]
    dsimp only
    rw [Node.putSession, Table.find?_put]
    exact if_pos (Table.key_of_find? hs).symm
  rw [reads, harrived, Option.any_some, hphase] at hread
  simp at hread

/-! ### What the protocol asks -/

/-- The states of a run are orderly. -/
theorem orderly_final (options : HostLinkOptions) (hub : Hub) (peerId : Text)
    (labels : List Label) :
    Node.Orderly (Run.final (step peerId) ⟨Node.new options hub, [], true⟩ labels).node := by
  refine (Run.invariant (I := fun w : PeerWire => Node.Orderly w.node)
    (Node.orderly_new options hub) labels fun p _ hp => ?_).2
  obtain ⟨w, label⟩ := p
  cases label with
  | node label => exact Node.Orderly.step hp label
  | write succeeds =>
    rw [step]
    split
    · split
      · exact hp
      · exact hp
    · exact hp

/-- The uplink drops on a line: it writes nothing more, and the connection is over. -/
def DropsUplink (n : Node) (now : DateTimeOffset) (line : Text) : Prop :=
  attempted (n.effects (.uplinkLine now line)) = [] ∧ (n.step (.uplinkLine now line)).UplinkOver

/-- The session of a peer drops on the line that it reads next. -/
def DropsPeer (w : PeerWire) (peerId : Text) (now : DateTimeOffset) : Prop :=
  (w.step peerId (.node (.read now peerId))).Over peerId

/-- **On a loop the link is over at once when it is established and nothing waits to be written.**
The other links hear of the loop from the node or not at all. -/
theorem drops_iff_of_loop (options : HostLinkOptions) (hub : Hub) (peerId : Text)
    (labels : List Label) (w : PeerWire)
    (hw : Run.final (step peerId) ⟨Node.new options hub, [], true⟩ labels = w)
    (now : DateTimeOffset) (line : Text) (hloop : IsLoop line) :
    (∀ engine, w.node.uplink = some engine →
      (DropsUplink w.node now line ↔ engine.state = .established)) ∧
    ∀ session lines, w.node.sessions.find? peerId = some session → session.phase = .receiving →
      session.inbox = line :: lines →
        (w.DropsPeer peerId now ↔
          session.engine.state = .established ∧ (w.outbound = [] ∨ w.writing = false)) := by
  have horderly : Node.Orderly w.node := hw ▸ orderly_final options hub peerId labels
  constructor
  · rintro engine hup
    have hopen : engine.state ≠ .disconnected := by
      rcases horderly.uplink engine hup with hstate | hstate
      · rw [hstate]
        nofun
      · rw [hstate]
        nofun
    obtain ⟨hquiet, hover⟩ :=
      HostLink.receiveLine_of_isLoop w.node.links now w.node.hub hloop hopen
    have hnext : w.node.next (.uplinkLine now line) =
        ({ w.node with
            uplink := (HostLink.receiveLine w.node.links now engine w.node.hub line).1
            hub := (HostLink.receiveLine w.node.links now engine w.node.hub line).2.1 },
          (HostLink.receiveLine w.node.links now engine w.node.hub line).2.2) := by
      rw [Node.next, hup]
    rw [DropsUplink, Node.uplinkOver_iff, Node.effects, Node.step, hnext]
    exact (and_iff_right hquiet).trans hover
  · rintro session lines hs hphase hinbox
    obtain ⟨hquiet, hdropped, hkept⟩ :=
      Node.read_of_isLoop horderly now hs hphase hinbox hloop
    have hstep : w.step peerId (.node (.read now peerId)) =
        { w with node := w.node.step (.read now peerId) } := by
      rw [step, hquiet]
      simp [enqueuedTo]
    rw [DropsPeer, hstep]
    by_cases hest : session.engine.state = .established
    · rw [hdropped hest]
      have hclosed : (w.node.endSession peerId).Closed peerId := by
        refine ⟨?_, horderly.ids peerId session hs⟩
        rw [Node.endSession, Table.find?_remove, if_pos rfl]
      constructor
      · rintro hover
        exact ⟨hest, (idle_of_over hover :)⟩
      · rintro ⟨-, hidle⟩
        exact over_of_closed hclosed hidle
    · obtain ⟨s', hs', hphase'⟩ := hkept hest
      refine iff_of_false (not_over_of_receiving hs' hphase') fun hbad => hest hbad.1

/-- A line of a loop. -/
def exampleLoopLine : Text := "/..LOOP HAMBURG".toList

theorem isLoop_exampleLoopLine : IsLoop exampleLoopLine := ⟨"HAMBURG".toList, rfl⟩

/-- The uplink connects and a peer comes, who has sent the line; the uplink hears its host when
`established`. -/
def exampleLinks (established : Bool) : PeerWire :=
  Run.final (step (Node.peerIdOf 1))
    ⟨Node.new (HostLinkOptions.ofHostName "NODE".toList) (Hub.fresh "NODE".toList), [], true⟩
    ([.node (.connect HostLinkEngine.defaultTime),
      .node (.accept HostLinkEngine.defaultTime [exampleLoopLine])] ++
        if established then [.node (.uplinkLine HostLinkEngine.defaultTime
          "/..HOST PARENT saupp1.62a Aadmpunfi".toList)] else [])

/-- The engine of the uplink and the session of the peer. -/
theorem exists_exampleLinks (established : Bool) :
    (∃ engine, (exampleLinks established).node.uplink = some engine ∧
      engine.state = if established then .established else .handshaking) ∧
    ∃ session, (exampleLinks established).node.sessions.find? (Node.peerIdOf 1) = some session ∧
      session.phase = .receiving ∧ session.inbox = [exampleLoopLine] ∧
        session.engine.state = .handshaking := by
  have huplink : (exampleLinks established).node.uplink.any (fun engine =>
      engine.state = if established then .established else .handshaking) = true := by
    cases established <;> decide +kernel
  have hsession : ((exampleLinks established).node.sessions.find? (Node.peerIdOf 1)).any
      (fun session => session.phase = .receiving ∧ session.inbox = [exampleLoopLine] ∧
        session.engine.state = .handshaking) = true := by
    cases established <;> decide +kernel
  obtain ⟨engine, hengine, hstate⟩ := (Option.any_eq_true _ _).mp huplink
  obtain ⟨session, hsession, hwhat⟩ := (Option.any_eq_true _ _).mp hsession
  exact ⟨⟨engine, hengine, of_decide_eq_true hstate⟩, session, hsession, of_decide_eq_true hwhat⟩

/-- An uplink that is established, and a peer that is not. -/
theorem drops_exampleLinks :
    (∃ engine, (exampleLinks true).node.uplink = some engine ∧
      (DropsUplink (exampleLinks true).node HostLinkEngine.defaultTime exampleLoopLine ↔
        engine.state = .established)) ∧
    ∃ session, (exampleLinks true).node.sessions.find? (Node.peerIdOf 1) = some session ∧
      ((exampleLinks true).DropsPeer (Node.peerIdOf 1) HostLinkEngine.defaultTime ↔
        session.engine.state = .established ∧
          ((exampleLinks true).outbound = [] ∨ (exampleLinks true).writing = false)) := by
  have hdrops := drops_iff_of_loop _ _ _ _ (exampleLinks true) rfl HostLinkEngine.defaultTime
    exampleLoopLine isLoop_exampleLoopLine
  obtain ⟨⟨engine, hengine, -⟩, session, hsession, hphase, hinbox, -⟩ := exists_exampleLinks true
  exact ⟨⟨engine, hengine, hdrops.1 engine hengine⟩, session, hsession,
    hdrops.2 session [] hsession hphase hinbox⟩

/-- **A link that waits for the handshake goes on**, in either role. The engine asks for the
handshake before it looks at anything else. -/
theorem not_drops_exampleLinks :
    (¬ ∀ (options : HostLinkOptions) (hub : Hub) (peerId : Text) (labels : List Label)
      (w : PeerWire), Run.final (step peerId) ⟨Node.new options hub, [], true⟩ labels = w →
        ∀ (now : DateTimeOffset) (line : Text), IsLoop line → ∀ engine,
          w.node.uplink = some engine → DropsUplink w.node now line) ∧
    ¬ ∀ (options : HostLinkOptions) (hub : Hub) (peerId : Text) (labels : List Label)
      (w : PeerWire), Run.final (step peerId) ⟨Node.new options hub, [], true⟩ labels = w →
        ∀ (now : DateTimeOffset) (line : Text), IsLoop line → ∀ session lines,
          w.node.sessions.find? peerId = some session → session.phase = .receiving →
            session.inbox = line :: lines → w.DropsPeer peerId now := by
  obtain ⟨⟨engine, hengine, hstate⟩, session, hsession, hphase, hinbox, hsession'⟩ :=
    exists_exampleLinks false
  constructor
  · intro hall
    obtain ⟨-, hover⟩ := hall _ _ _ _ (exampleLinks false) rfl HostLinkEngine.defaultTime
      exampleLoopLine isLoop_exampleLoopLine engine hengine
    have hkept : ((exampleLinks false).node.step (.uplinkLine HostLinkEngine.defaultTime
        exampleLoopLine)).uplink.isSome = true := by
      decide +kernel
    rw [Node.uplinkOver_iff.mp hover] at hkept
    cases hkept
  · intro hall
    have hover := hall _ _ _ _ (exampleLinks false) rfl HostLinkEngine.defaultTime exampleLoopLine
      isLoop_exampleLoopLine session [] hsession hphase hinbox
    have hkept : ((((exampleLinks false).step (Node.peerIdOf 1) (.node (.read
        HostLinkEngine.defaultTime (Node.peerIdOf 1)))).node.sessions.find? (Node.peerIdOf 1)).any
          fun session => session.phase = .receiving) = true := by
      decide +kernel
    obtain ⟨session', hsession', hphase'⟩ := (Option.any_eq_true _ _).mp hkept
    exact not_over_of_receiving hsession' (of_decide_eq_true hphase') hover

end PeerWire

end Convers
