import Convers.Host.Network
import Convers.Host.Silence
import Convers.Lib.Heartbeat

/-!
# Links in time

No message says that a link is dead: a hub drops it when it has not heard of the other end for
longer than its silence timeout, and the other end sees to it with a `PING` now and then. Both are
done by the timer of the link, which knows nothing of the rest of the network.

Here the links of the network have a clock. The steps of a calm run are those of
`Convers.Network.Mild`, but a timer may find a link silent (`Convers.Network.Calm`); what happens
on a link, as seen from one end, is a list of heartbeats (`Convers.Topology.beats`); and the
engines at the two ends remember the last ping and the last line of that list
(`Convers.Topology.Tracked`). `Convers.Topology.mild_of_punctual` is what follows: where the timers
tick often enough and what is written arrives soon enough, no timer finds a link silent.
-/

namespace Convers

open HostCommand
open HostLink (writtenTo)
open Heartbeat (Beat lastPing lastHeard)

namespace HostLinkEngine

variable {now : DateTimeOffset} {e e' : HostLinkEngine} {step : EngineStep} {line : Text}

/-- A line of an established link is noted, and no ping. -/
theorem clock_onLineReceived (hstate : e.state = .established)
    (h : e.onLineReceived now line = .ok (e', step)) :
    e'.lastInbound = now ∧ e'.lastPingSent = e.lastPingSent ∧ e'.options = e.options := by
  have hopen : e.state ≠ .disconnected := by
    rw [hstate]
    rintro ⟨⟩
  cases move_line hopen h with
  | heard _ _ he | completed _ _ _ he | again _ _ _ he =>
    rw [he]
    exact ⟨rfl, rfl, rfl⟩

/-- A tick of an established link that is not silent pings when a ping is due, and does
nothing else. -/
theorem clock_onTick (hstate : e.state = .established)
    (hdrop : (e.onTick now).2.dropReason = none) :
    (e.onTick now).1.lastInbound = e.lastInbound ∧ (e.onTick now).1.options = e.options ∧
      (((e.onTick now).1.lastPingSent = now ∧ (e.onTick now).2.outboundCommands = [.hostPing]) ∨
        ((e.onTick now).1.lastPingSent = e.lastPingSent ∧ (e.onTick now).2.outboundCommands = [] ∧
          elapsed e.lastPingSent now < e.options.pingInterval)) := by
  rw [onTick_of_established hstate] at hdrop ⊢
  split at hdrop
  · cases hdrop
  · rename_i hheard
    rw [if_neg hheard]
    by_cases hdue : e.options.pingInterval ≤ elapsed e.lastPingSent now
    · rw [if_pos hdue]
      exact ⟨rfl, rfl, Or.inl ⟨rfl, rfl⟩⟩
    · rw [if_neg hdue]
      exact ⟨rfl, rfl, Or.inr ⟨rfl, rfl, not_le.mp hdue⟩⟩

end HostLinkEngine

/-! ### The clocks of a node -/

namespace Node

/-- The moment of a step, where the hub looks at the clock for it. -/
def Label.time : Label → Option DateTimeOffset
  | .drain now | .connect now | .uplinkLine now _ | .uplinkTick now | .accept now _ | .read now _
  | .peerTick now _ => some now
  | .submit _ | .uplinkLoss | .arrive .. | .proceed _ | .peerLoss _ => none

/-- The host whose timer ticks. -/
def Label.ticked : Label → Option RemoteHost
  | .uplinkTick _ => some .uplink
  | .peerTick _ peerId => some (.peer peerId)
  | _ => none

variable (n : Node)

/-- The engine of the link to a host. -/
def engineOf : RemoteHost → Option HostLinkEngine
  | .uplink => n.uplink
  | .peer peerId => (n.sessions.find? peerId).map PeerSession.engine

/-- **The steps that take no link down, unless it is silent.** -/
def Calm : Label → Prop
  | .submit event => event.isLocal = true
  | .drain now => ∀ c ∈ n.saidBy (.drain now), c.Intact
  | .uplinkLine _ line | .arrive _ line => SoundLine line
  | .uplinkTick _ | .peerTick .. | .read .. | .proceed _ => True
  | .connect _ | .uplinkLoss | .accept .. | .peerLoss _ => False

instance (n : Node) : (label : Label) → Decidable (n.Calm label)
  | .submit event => inferInstanceAs (Decidable (event.isLocal = true))
  | .drain now => inferInstanceAs (Decidable (∀ c ∈ n.saidBy (.drain now), c.Intact))
  | .uplinkLine _ line | .arrive _ line => inferInstanceAs (Decidable (SoundLine line))
  | .uplinkTick _ | .peerTick .. | .read .. | .proceed _ => inferInstanceAs (Decidable True)
  | .connect _ | .uplinkLoss | .accept .. | .peerLoss _ => inferInstanceAs (Decidable False)

variable {n : Node} {label : Label} {host : RemoteHost} {e : HostLinkEngine}

theorem mild_of_calm (hcalm : n.Calm label)
    (hticks : ∀ host now e, label.ticked = some host → label.time = some now →
      n.engineOf host = some e → (e.onTick now).2.dropReason = none) : n.Mild label := by
  cases label with
  | uplinkTick now => exact fun e he => hticks .uplink now e rfl rfl he
  | peerTick now peerId =>
    exact fun s hs => hticks (.peer peerId) now s.engine rfl rfl (congrArg (Option.map _) hs)
  | _ => exact hcalm

theorem Up.established (h : n.Up) (he : n.engineOf host = some e) : e.state = .established := by
  cases host with
  | uplink => exact h.uplink e he
  | peer id =>
    obtain ⟨s, hs, rfl⟩ := Option.map_eq_some_iff.mp he
    exact (h.orderly.sessions id s hs).registered (h.sessions id s hs).1

/-- There is an engine for each connected host. -/
theorem Up.connected_iff (h : n.Up) (host : RemoteHost) :
    n.connected host ↔ ∃ e, n.engineOf host = some e := by
  cases host with
  | uplink => exact Option.isSome_iff_exists
  | peer id =>
    refine (h.connected_peer_iff id).trans ⟨?_, ?_⟩
    · rintro ⟨s, hs⟩
      exact ⟨s.engine, congrArg (Option.map _) hs⟩
    · rintro ⟨e, he⟩
      obtain ⟨s, hs, -⟩ := Option.map_eq_some_iff.mp he
      exact ⟨s, hs⟩

theorem engineOf_putSession (n : Node) (s : PeerSession) (host : RemoteHost) :
    (n.putSession s).engineOf host = if host = .peer s.id then some s.engine
      else n.engineOf host := by
  cases host with
  | uplink => rfl
  | peer id =>
    rw [engineOf, find?_putSession]
    by_cases hid : id = s.id
    · rw [if_pos hid, if_pos (congrArg _ hid)]
      rfl
    · rw [if_neg hid, if_neg fun hbad => hid (RemoteHost.peer.inj hbad)]
      rfl

theorem engineOf_submitContent (n : Node) (id line : Text) (host : RemoteHost) :
    (n.submitContent id line).engineOf host = n.engineOf host := by
  rw [submitContent]
  split
  · cases host with
    | uplink => rfl
    | peer id => rfl
  · rfl

/-- **What a step does to the engine of a link**: it ticks, it takes a line, or it is let alone. -/
inductive Turned (n : Node) (label : Label) (host : RemoteHost) (e : HostLinkEngine) :
    HostLinkEngine → Prop
  | ticked {now : DateTimeOffset} (hticked : label.ticked = some host)
      (htime : label.time = some now) : Turned n label host e (e.onTick now).1
  | heard {now : DateTimeOffset} {line : Text} {e' : HostLinkEngine} {step : EngineStep}
      (hheard : n.heard label = some (host, line)) (htime : label.time = some now)
      (hread : e.onLineReceived now line = .ok (e', step)) : Turned n label host e e'
  | still (hticked : label.ticked ≠ some host)
      (hheard : (n.heard label).map Prod.fst ≠ some host) : Turned n label host e e

/-- A session that reads a line goes on with the engine that has read it. -/
theorem Up.engineOf_read (h : n.Up) {session : PeerSession} {line : Text} {lines : List Text}
    (hfind : n.sessions.find? session.id = some session) (hphase : session.phase = .receiving)
    (hinbox : session.inbox = line :: lines) (now : DateTimeOffset) (host : RemoteHost) :
    ∃ engine step, session.engine.onLineReceived now line = .ok (engine, step) ∧
      (n.step (.read now session.id)).engineOf host =
        if host = .peer session.id then some engine else n.engineOf host := by
  obtain ⟨engine, step, hread, hdrop, hcompleted, -⟩ := h.takes hfind hinbox now
  refine ⟨engine, step, hread, ?_⟩
  rw [Node.step, next, hfind]
  dsimp only
  rw [hphase, hinbox]
  dsimp only
  rw [readLine]
  dsimp only
  rw [hread]
  dsimp only
  -- it is registered, and its handshake is done: the line is submitted
  rw [hdrop]
  dsimp only
  rw [hcompleted, if_neg Bool.false_ne_true, if_pos (h.sessions _ _ hfind).1,
    engineOf_submitContent, engineOf_putSession]

/-- A session that ticks goes on with the engine after it. -/
theorem Up.engineOf_peerTick (h : n.Up) {session : PeerSession} {now : DateTimeOffset}
    (hfind : n.sessions.find? session.id = some session)
    (hdrop : (session.engine.onTick now).2.dropReason = none) (host : RemoteHost) :
    (n.step (.peerTick now session.id)).engineOf host =
      if host = .peer session.id then some (session.engine.onTick now).1 else n.engineOf host := by
  rw [Node.step, next, hfind]
  dsimp only
  rw [if_pos (h.sessions _ _ hfind).2.1, hdrop, if_neg (by simp)]
  exact engineOf_putSession ..

/-- **The engines of a mild step.** What becomes of the other fields of the node does not matter to
the clocks. -/
theorem Up.engineOf_step (h : n.Up) (hmild : n.Mild label) (he : n.engineOf host = some e) :
    ∃ e', (n.step label).engineOf host = some e' ∧ Turned n label host e e' := by
  -- no host has its turn in a step that leaves its engine alone
  have hother {label' : Label} {n' : Node} {calls : List HostLink.Effect}
      (hnext : n.next label' = (n', calls)) (hsame : n'.engineOf host = n.engineOf host)
      (hticked : label'.ticked ≠ some host) (hheard : (n.heard label').map Prod.fst ≠ some host) :
      ∃ e', (n.step label').engineOf host = some e' ∧ Turned n label' host e e' := by
    refine ⟨e, ?_, .still hticked hheard⟩
    rw [Node.step, hnext]
    exact hsame.trans he
  cases label with
  | submit event =>
    refine hother rfl ?_ (by rintro ⟨⟩) (by rintro ⟨⟩)
    cases host with
    | uplink => rfl
    | peer id => rfl
  | drain now =>
    obtain ⟨n', calls, hnext, hc⟩ := n.exists_change (.drain now)
    refine hother hnext ?_ (by rintro ⟨⟩) (by rintro ⟨⟩)
    cases hc with
    | idle => rfl
    | drained | passed | skipped =>
      cases host with
      | uplink => rfl
      | peer id => rfl
    | @answered id queue session _ hqueue hfind hphase =>
      -- nobody waits for a snapshot any more
      cases hphase.symm.trans (h.sessions _ _ hfind).2.1
  | connect | uplinkLoss | accept | peerLoss => exact hmild.elim
  | uplinkLine now line =>
    cases host with
    | uplink =>
      obtain ⟨e', step, hread, -, hdrop, -⟩ :=
        HostLinkEngine.onLineReceived_of_sound now (h.uplink e he) hmild
      have hheard : n.heard (.uplinkLine now line) = some (.uplink, line) :=
        if_pos (Option.isSome_iff_exists.mpr ⟨e, he⟩)
      refine ⟨e', ?_, .heard hheard rfl hread⟩
      have hup : n.uplink = some e := he
      rw [Node.step, next, hup]
      exact congrArg Prod.fst (HostLink.receiveLine_of_keep n.links n.hub hread hdrop)
    | peer id =>
      refine ⟨e, ?_, .still (by rintro ⟨⟩) ?_⟩
      · rw [Node.step, next]
        split
        · exact he
        · exact he
      · rw [Node.heard]
        split
        · rintro ⟨⟩
        · rintro ⟨⟩
  | uplinkTick now =>
    cases host with
    | uplink =>
      have hup : n.uplink = some e := he
      refine ⟨_, ?_, .ticked rfl rfl⟩
      rw [Node.step, next, hup]
      show (if _ then none else some (e.onTick now).1) = some (e.onTick now).1
      rw [hmild e he, if_neg (by simp)]
    | peer id =>
      refine ⟨e, ?_, .still (by rintro ⟨⟩) (by rintro ⟨⟩)⟩
      rw [Node.step, next]
      split
      · exact he
      · exact he
  | arrive id line =>
    refine ⟨e, ?_, .still (by rintro ⟨⟩) (by rintro ⟨⟩)⟩
    rw [Node.step, next]
    split
    · rename_i session hfind
      rw [engineOf_putSession]
      split
      · rename_i hhost
        cases Table.key_of_find? hfind
        rw [hhost, engineOf, hfind] at he
        exact he
      · exact he
    · exact he
  | read now id =>
    rcases n.read_cases now id with ⟨session, line, lines, hfind, hphase, hinbox, hheard⟩ |
      ⟨hheard, hstep⟩
    · obtain rfl : session.id = id := Table.key_of_find? hfind
      obtain ⟨engine, step, hread, hnext⟩ := h.engineOf_read hfind hphase hinbox now host
      rw [hnext]
      by_cases hhost : host = .peer session.id
      · subst hhost
        rw [engineOf, hfind] at he
        cases he
        exact ⟨engine, if_pos rfl, .heard hheard rfl hread⟩
      · refine ⟨e, (if_neg hhost).trans he, .still (by rintro ⟨⟩) ?_⟩
        rw [hheard]
        exact fun hbad => hhost (Option.some.inj hbad).symm
    · refine ⟨e, hstep.symm ▸ he, .still (by rintro ⟨⟩) ?_⟩
      rw [hheard]
      rintro ⟨⟩
  | proceed id =>
    refine ⟨e, ?_, .still (by rintro ⟨⟩) (by rintro ⟨⟩)⟩
    rw [Node.step, next]
    split
    · rename_i session hfind
      rw [proceedSession, (h.sessions _ _ hfind).2.1]
      exact he
    · exact he
  | peerTick now id =>
    rcases hfind : n.sessions.find? id with _ | session
    · have hhost : host ≠ .peer id := by
        rintro rfl
        rw [engineOf, hfind] at he
        cases he
      refine ⟨e, ?_, .still (fun hbad => hhost (Option.some.inj hbad).symm) (by rintro ⟨⟩)⟩
      rw [Node.step, next, hfind]
      exact he
    · obtain rfl : session.id = id := Table.key_of_find? hfind
      rw [h.engineOf_peerTick hfind (hmild session hfind) host]
      by_cases hhost : host = .peer session.id
      · subst hhost
        rw [engineOf, hfind] at he
        cases he
        exact ⟨_, if_pos rfl, .ticked rfl rfl⟩
      · refine ⟨e, (if_neg hhost).trans he, .still ?_ (by rintro ⟨⟩)⟩
        exact fun hbad => hhost (Option.some.inj hbad).symm

/-- A tick writes its ping to the host. -/
theorem Up.ping_mem_writtenTo (h : n.Up) {now : DateTimeOffset}
    (hticked : label.ticked = some host) (htime : label.time = some now)
    (he : n.engineOf host = some e) :
    .hostPing ∈ writtenTo host (n.effects label) ↔
      .hostPing ∈ (e.onTick now).2.outboundCommands := by
  cases label with
  | uplinkTick now' =>
    cases hticked
    cases htime
    have hup : n.uplink = some e := he
    have hevents := (HostLinkEngine.onTick_pings now e).1
    rw [effects, next, hup]
    show .hostPing ∈ writtenTo .uplink
      (HostLink.applyStep n.links now n.hub (e.onTick now).2).2.effects ↔ _
    rw [HostLink.applyStep, hevents]
    simp [writtenTo, HostLink.attempted, HostLink.applyEvents, List.filterMap_map]
  | peerTick now' id =>
    cases hticked
    cases htime
    obtain ⟨session, hfind, rfl⟩ := Option.map_eq_some_iff.mp he
    have hevents := (HostLinkEngine.onTick_pings now session.engine).1
    have hwritten : n.effects (.peerTick now id) =
        applyPeerStep id (session.engine.onTick now).2 := by
      rw [effects, next, hfind]
      dsimp only
      rw [if_pos (h.sessions _ _ hfind).2.1]
      split
      · rfl
      · rfl
    rw [hwritten, applyPeerStep, hevents]
    simp [writtenTo, HostLink.enqueuedTo, List.filterMap_map]
  | _ => cases hticked

end Node

/-! ### The clocks of the network -/

/-- When it happens. -/
def Network.Act.time {V : Type*} : Network.Act V → Option DateTimeOffset
  | .work _ label => label.time
  | .deliver _ _ now => some now

/-- **The steps that lose no link, unless it is silent.** -/
def Network.Calm {V : Type*} (net : Network V) : Network.Act V → Prop
  | .work x label => (net.hub x).Calm label ∧ label.isArrival = false
  | .deliver .. => True

instance {V : Type*} (net : Network V) :
    (act : Network.Act V) → Decidable (net.Calm act)
  | .work x label =>
    inferInstanceAs (Decidable ((net.hub x).Calm label ∧ label.isArrival = false))
  | .deliver .. => inferInstanceAs (Decidable True)

namespace Topology

open Network (Act)

variable {V : Type*} (T : Topology V) [DecidableEq V]

/-- The engine of the link of `x` to `y`. -/
def engine (net : Network V) (x y : V) : Option HostLinkEngine := (net.hub x).engineOf (T.port x y)

/-- What happens with a step on the link of `x` to `y`, where `x` is the one that pings. -/
def beat (x y : V) (p : Network V × Act V) : Option Beat :=
  p.2.time.map fun now =>
    match T.turn p.1 p.2 with
    | some (z, label) =>
      if z = x ∧ label.ticked = some (T.port x y) then
        if .hostPing ∈ writtenTo (T.port x y) ((p.1.hub x).effects label) then .ping now.ticks
        else .tick now.ticks
      else if z = y ∧ ((p.1.hub y).heard label).map Prod.fst = some (T.port y x) then
        .hear now.ticks
      else .pass now.ticks
    | none => .pass now.ticks

/-- What happens on that link over a run. -/
def beats (x y : V) (run : List (Network V × Act V)) : List Beat := run.filterMap (T.beat x y)

/-- **The links of the network are young**: each end has last pinged within its interval and has
been heard of since; and with the ticks a period apart and all that is written a delay on its way,
the other end is more patient. -/
def Fresh (began : DateTimeOffset) (period delay : ℕ) (net : Network V) : Prop :=
  ∀ x y, T.graph.Adj x y → ∀ e ∈ T.engine net x y, ∀ f ∈ T.engine net y x,
    0 ≤ e.options.pingInterval ∧
      e.options.pingInterval + period + delay < f.options.silenceTimeout ∧
        e.lastPingSent.ticks ≤ began.ticks ∧ e.lastPingSent.ticks ≤ f.lastInbound.ticks ∧
          (began.ticks : ℤ) - e.lastPingSent.ticks ≤ e.options.pingInterval

/-- **In time**, on every link and in both directions. -/
def Punctual (began : DateTimeOffset) (period delay : ℕ) (run : List (Network V × Act V)) : Prop :=
  ∀ x y, T.graph.Adj x y → Heartbeat.Punctual began.ticks period delay (T.beats x y run)

instance [Fintype V] (began : DateTimeOffset) (period delay : ℕ) (net : Network V) :
    Decidable (T.Fresh began period delay net) :=
  inferInstanceAs (Decidable (∀ x y, T.graph.Adj x y → ∀ e ∈ T.engine net x y,
    ∀ f ∈ T.engine net y x, _ ∧ _ ∧ _ ∧ _ ∧ _))

instance [Fintype V] (began : DateTimeOffset) (period delay : ℕ)
    (run : List (Network V × Act V)) : Decidable (T.Punctual began period delay run) :=
  inferInstanceAs (Decidable (∀ x y, T.graph.Adj x y →
    Heartbeat.Punctual began.ticks period delay (T.beats x y run)))

/-- **What the engines remember** is what has happened, and that is as it should be. -/
def Tracked (start : Network V) (began : DateTimeOffset) (period : ℕ)
    (run : List (Network V × Act V)) (net : Network V) : Prop :=
  ∀ x y, T.graph.Adj x y → ∃ e₀ f₀ e f, T.engine start x y = some e₀ ∧
    T.engine start y x = some f₀ ∧ T.engine net x y = some e ∧ T.engine net y x = some f ∧
      e.options = e₀.options ∧ f.options = f₀.options ∧
        e.lastPingSent.ticks = lastPing e₀.lastPingSent.ticks (T.beats x y run) ∧
          f.lastInbound.ticks = lastHeard f₀.lastInbound.ticks (T.beats x y run) ∧
            Heartbeat.Kept e₀.lastPingSent.ticks f₀.lastInbound.ticks began.ticks
              e₀.options.pingInterval period (T.beats x y run)

variable {T} {net start : Network V} {act : Act V} {acts : List (Act V)} {x y z : V}
  {label : Node.Label} {now began : DateTimeOffset} {period delay : ℕ}
  {run : List (Network V × Act V)}

/-- The moment of a turn is that of the step. -/
theorem time_of_turn (hturn : T.turn net act = some (x, label)) (htime : label.time = some now) :
    act.time = some now := by
  rcases turn_eq_some hturn with rfl | ⟨y, now', line, lines, rfl, -, rfl⟩
  · exact htime
  · rw [takesIn] at htime
    split at htime
    · exact htime
    · cases htime

theorem beats_append (x y : V) (run : List (Network V × Act V)) (p : Network V × Act V) :
    T.beats x y (run ++ [p]) = T.beats x y run ++ (T.beat x y p).toList := by
  rw [beats, beats, List.filterMap_append]
  rcases hbeat : T.beat x y p with _ | b
  · rw [List.filterMap_cons_none hbeat]
    rfl
  · rw [List.filterMap_cons_some hbeat]
    rfl

theorem time_of_beat {p : Network V × Act V} {b : Beat} (h : T.beat x y p = some b) :
    ∃ now, p.2.time = some now ∧ b.time = now.ticks := by
  obtain ⟨now, htime, rfl⟩ := Option.map_eq_some_iff.mp h
  refine ⟨now, htime, ?_⟩
  split
  · split
    · split
      · rfl
      · rfl
    · split
      · rfl
      · rfl
  · rfl

/-- A punctual run is one up to its last step, and that step is in time. -/
theorem Punctual.append {p : Network V × Act V}
    (h : T.Punctual began period delay (run ++ [p])) :
    T.Punctual began period delay run ∧ ∀ x y, T.graph.Adj x y → ∀ now, p.2.time = some now →
      Heartbeat.OnTime began.ticks period delay (T.beats x y run) now.ticks := by
  constructor
  · intro x y hadj
    have hbeats := h x y hadj
    rw [beats_append] at hbeats
    rcases hbeat : T.beat x y p with _ | b
    · rwa [hbeat, Option.toList_none, List.append_nil] at hbeats
    · rw [hbeat] at hbeats
      exact hbeats.append.1
  · intro x y hadj now htime
    have hbeats := h x y hadj
    rw [beats_append] at hbeats
    rcases hbeat : T.beat x y p with _ | b
    · rw [beat, htime] at hbeat
      cases hbeat
    · rw [hbeat] at hbeats
      obtain ⟨now', htime', hb⟩ := time_of_beat hbeat
      cases htime.symm.trans htime'
      exact hb ▸ hbeats.append.2

/-- **At a tick the link has not been silent for too long.** It is where the general result on
heartbeats meets the timer of the code. -/
theorem Tracked.onTick_of_onTime (h : T.Tracked start began period run net)
    (hlinked : T.Linked net) (hfresh : T.Fresh began period delay start)
    (hadj : T.graph.Adj x y)
    (hnow : Heartbeat.OnTime began.ticks period delay (T.beats y x run) now.ticks)
    {e : HostLinkEngine} (he : T.engine net x y = some e) : (e.onTick now).2.dropReason = none := by
  obtain ⟨e₀, f₀, e', f, he₀, hf₀, -, hf, -, hoptions, -, hheard, hkept⟩ := h y x hadj.symm
  cases hf.symm.trans he
  obtain ⟨-, hpatient, -⟩ := hfresh y x hadj.symm e₀ he₀ f₀ hf₀
  have hnews := hkept.sub_lastHeard_le hnow
  rw [← hheard] at hnews
  have hstate := (hlinked.up x).established hf
  rw [HostLinkEngine.onTick_of_established hstate, if_neg, apply_ite Prod.snd]
  · split
    · rfl
    · rfl
  · rw [hoptions, HostLinkEngine.elapsed]
    omega

/-! ### What a step does to the clocks -/

/-- A hub that does not tick does not ping. -/
theorem lastPing_beat (hturn : T.turn net act = some (z, label))
    (hnot : ¬(z = x ∧ label.ticked = some (T.port x y))) (first : ℤ) :
    lastPing first (T.beat x y (net, act)).toList = first ∧
      ∀ t, T.beat x y (net, act) ≠ some (.tick t) := by
  rw [beat, hturn]
  rcases act.time with _ | now
  · exact ⟨rfl, by rintro _ ⟨⟩⟩
  · rw [Option.map_some]
    dsimp only
    rw [if_neg hnot]
    split
    · exact ⟨rfl, by rintro _ ⟨⟩⟩
    · exact ⟨rfl, by rintro _ ⟨⟩⟩

/-- A hub that takes no line does not hear of the other. -/
theorem lastHeard_beat (hturn : T.turn net act = some (z, label))
    (hnot : ¬(z = y ∧ ((net.hub y).heard label).map Prod.fst = some (T.port y x))) (first : ℤ) :
    lastHeard first (T.beat x y (net, act)).toList = first := by
  rw [beat, hturn]
  rcases act.time with _ | now
  · rfl
  · rw [Option.map_some]
    dsimp only
    split
    · split
      · rfl
      · rfl
    · rfl

/-- The engine of a link after a step is that of the turn, if it is the turn of its hub. -/
theorem Linked.engine_perform (h : T.Linked net) (hmild : net.Mild act)
    (hturn : T.turn net act = some (z, label)) {e : HostLinkEngine}
    (he : T.engine net x y = some e) :
    ∃ e', T.engine (T.perform net act) x y = some e' ∧
      (z = x ∧ (net.hub x).Turned label (T.port x y) e e' ∨ z ≠ x ∧ e' = e) := by
  rw [engine, hub_perform hturn]
  by_cases hz : z = x
  · subst hz
    obtain ⟨e', he', hturned⟩ := (h.up z).engineOf_step (h.mild hmild hturn) he
    exact ⟨e', by rwa [if_pos rfl], Or.inl ⟨rfl, hturned⟩⟩
  · exact ⟨e, by rwa [if_neg (Ne.symm hz)], Or.inr ⟨hz, rfl⟩⟩

/-- A tick of a mild step drops nobody. -/
theorem Linked.dropReason_of_ticked (h : T.Linked net) (hmild : net.Mild act)
    (hturn : T.turn net act = some (z, label)) (hticked : label.ticked = some (T.port z y))
    (htime : label.time = some now) {e : HostLinkEngine} (he : T.engine net z y = some e) :
    (e.onTick now).2.dropReason = none := by
  have hlabel := h.mild hmild hturn
  cases label with
  | uplinkTick now' =>
    cases htime
    rw [engine, ← Option.some.inj hticked] at he
    exact hlabel e he
  | peerTick now' id =>
    cases htime
    rw [engine, ← Option.some.inj hticked] at he
    obtain ⟨s, hs, rfl⟩ := Option.map_eq_some_iff.mp he
    exact hlabel s hs
  | _ => cases hticked

/-- **The end that pings** remembers its last ping, and does not let one be overdue. Its beats are
so those of its own timer. -/
theorem Linked.lastPing_perform (h : T.Linked net) (hmild : net.Mild act) {e : HostLinkEngine}
    (he : T.engine net x y = some e) :
    ∃ e', T.engine (T.perform net act) x y = some e' ∧ e'.options = e.options ∧
      e'.lastPingSent.ticks = lastPing e.lastPingSent.ticks (T.beat x y (net, act)).toList ∧
        ∀ t, T.beat x y (net, act) = some (.tick t) →
          t - e.lastPingSent.ticks ≤ e.options.pingInterval := by
  rcases hturn : T.turn net act with _ | ⟨z, label⟩
  · refine ⟨e, by rwa [perform, hturn], rfl, ?_⟩
    rw [beat, hturn]
    rcases act.time with _ | now
    · exact ⟨rfl, by rintro _ ⟨⟩⟩
    · exact ⟨rfl, by rintro _ ⟨⟩⟩
  obtain ⟨e', he', ⟨rfl, hturned⟩ | ⟨hz, rfl⟩⟩ := h.engine_perform hmild hturn he
  · -- it is the turn of this end: a tick pings when a ping is due, and a line is no ping
    refine ⟨e', he', ?_⟩
    have hstate := (h.up z).established he
    cases hturned with
    | @ticked now hticked htime =>
      have hbeat : T.beat z y (net, act) = some (if .hostPing ∈ (e.onTick now).2.outboundCommands
          then .ping now.ticks else .tick now.ticks) := by
        rw [beat, time_of_turn hturn htime, hturn, Option.map_some]
        dsimp only
        rw [if_pos ⟨rfl, hticked⟩]
        simp only [(h.up z).ping_mem_writtenTo hticked htime he]
      have hdrop := h.dropReason_of_ticked hmild hturn hticked htime he
      obtain ⟨-, hoptions, ⟨hping, hcommands⟩ | ⟨hping, hcommands, hyoung⟩⟩ :=
        HostLinkEngine.clock_onTick hstate hdrop
      · rw [hbeat, hcommands, if_pos (List.mem_singleton_self _), hping]
        exact ⟨hoptions, rfl, by rintro _ ⟨⟩⟩
      · rw [hbeat, hcommands, if_neg List.not_mem_nil, hping]
        refine ⟨hoptions, rfl, ?_⟩
        rintro _ ⟨⟩
        exact hyoung.le
    | @heard now line e' step hheard htime hread =>
      obtain ⟨-, hping, hoptions⟩ := HostLinkEngine.clock_onLineReceived hstate hread
      have hnot : ¬(z = z ∧ label.ticked = some (T.port z y)) := by
        rintro ⟨-, hbad⟩
        cases label with
        | uplinkTick | peerTick => cases hheard
        | _ => cases hbad
      obtain ⟨hlast, htick⟩ := lastPing_beat hturn hnot e.lastPingSent.ticks
      exact ⟨hoptions, hlast.symm ▸ congrArg _ (congrArg _ hping), fun t ht => absurd ht (htick t)⟩
    | still hticked hheard =>
      obtain ⟨hlast, htick⟩ := lastPing_beat hturn (fun hbad => hticked hbad.2) e.lastPingSent.ticks
      exact ⟨rfl, hlast.symm, fun t ht => absurd ht (htick t)⟩
  · obtain ⟨hlast, htick⟩ := lastPing_beat (y := y) hturn (fun hbad => hz hbad.1)
      e'.lastPingSent.ticks
    exact ⟨e', he', rfl, hlast.symm, fun t ht => absurd ht (htick t)⟩

/-- **The other end** remembers when it last heard of it. A line of any kind will do, and the ping
is one at the least. -/
theorem Linked.lastHeard_perform (h : T.Linked net) (hmild : net.Mild act)
    (hadj : T.graph.Adj x y) {f : HostLinkEngine} (hf : T.engine net y x = some f) :
    ∃ f', T.engine (T.perform net act) y x = some f' ∧ f'.options = f.options ∧
      f'.lastInbound.ticks =
        lastHeard f.lastInbound.ticks (T.beat x y (net, act)).toList := by
  rcases hturn : T.turn net act with _ | ⟨z, label⟩
  · refine ⟨f, by rwa [perform, hturn], rfl, ?_⟩
    rw [beat, hturn]
    rcases act.time with _ | now
    · rfl
    · rfl
  obtain ⟨f', hf', ⟨rfl, hturned⟩ | ⟨hz, rfl⟩⟩ := h.engine_perform hmild hturn hf
  · -- it is the turn of this end: a line is heard, and a tick leaves the time of it alone
    refine ⟨f', hf', ?_⟩
    have hstate := (h.up z).established hf
    have hne : z ≠ x := fun hbad => T.graph.loopless.irrefl x (hbad ▸ hadj)
    cases hturned with
    | @ticked now hticked htime =>
      have hquiet : (net.hub z).heard label = none := by
        cases label with
        | uplinkTick | peerTick => rfl
        | _ => cases hticked
      have hlast := lastHeard_beat (x := x) hturn (fun hbad => by
        rw [hquiet] at hbad
        cases hbad.2) f.lastInbound.ticks
      have hmove := HostLinkEngine.move_tick now f
      obtain ⟨hinbound, hoptions⟩ : (f.onTick now).1.lastInbound = f.lastInbound ∧
          (f.onTick now).1.options = f.options := by
        cases hmove with
        | stalled _ he | silent _ he | pinged _ _ _ he | idle _ _ he =>
          rw [he]
          exact ⟨rfl, rfl⟩
      exact ⟨hoptions, hlast.symm ▸ congrArg _ (congrArg _ hinbound)⟩
    | @heard now line f' step hheard htime hread =>
      obtain ⟨hinbound, -, hoptions⟩ := HostLinkEngine.clock_onLineReceived hstate hread
      have hbeat : T.beat x z (net, act) = some (.hear now.ticks) := by
        rw [beat, time_of_turn hturn htime, hturn, Option.map_some]
        dsimp only
        rw [if_neg fun hbad => hne hbad.1, if_pos ⟨rfl, congrArg _ hheard⟩]
      rw [hbeat, hinbound]
      exact ⟨hoptions, rfl⟩
    | still hticked hheard =>
      exact ⟨rfl, (lastHeard_beat hturn (fun hbad => hheard hbad.2) _).symm⟩
  · exact ⟨f', hf', rfl, (lastHeard_beat hturn (fun hbad => hz hbad.1) _).symm⟩

/-- **Every step in time is tracked.** What is new in a step is one beat of one link, or none. -/
theorem Tracked.step (h : T.Tracked start began period run net) (hlinked : T.Linked net)
    (hfresh : T.Fresh began period delay start) (hmild : net.Mild act)
    (hnow : ∀ x y, T.graph.Adj x y → ∀ now, act.time = some now →
      Heartbeat.OnTime began.ticks period delay (T.beats x y run) now.ticks) :
    T.Tracked start began period (run ++ [(net, act)]) (T.perform net act) := by
  intro x y hadj
  obtain ⟨e₀, f₀, e, f, he₀, hf₀, he, hf, hoptions, hoptions', hping, hheard, hkept⟩ := h x y hadj
  obtain ⟨e', he', hsame, hping', hidle⟩ := hlinked.lastPing_perform hmild he
  obtain ⟨f', hf', hsame', hheard'⟩ := hlinked.lastHeard_perform hmild hadj hf
  obtain ⟨hinterval, -⟩ := hfresh x y hadj e₀ he₀ f₀ hf₀
  refine ⟨e₀, f₀, e', f', he₀, hf₀, he', hf', hsame.trans hoptions, hsame'.trans hoptions', ?_, ?_,
    ?_⟩
  · rw [hping', hping, beats_append, lastPing, lastPing, lastPing, ← List.foldl_append]
  · rw [hheard', hheard, beats_append, lastHeard, lastHeard, lastHeard, ← List.foldl_append]
  · rw [beats_append]
    rcases hbeat : T.beat x y (net, act) with _ | b
    · rwa [Option.toList_none, List.append_nil]
    · obtain ⟨now, htime, hb⟩ := time_of_beat hbeat
      refine hkept.append (hnow x y hadj now htime) hinterval hb fun t ht => ?_
      rw [← hping, ← hoptions]
      exact hidle t (ht ▸ hbeat)

/-- A network that is young is tracked. -/
theorem Fresh.tracked (hfresh : T.Fresh began period delay start) (hlinked : T.Linked start) :
    T.Tracked start began period [] start := by
  intro x y hadj
  obtain ⟨e, he⟩ := ((hlinked.up x).connected_iff _).mp (hlinked.connected_port hadj)
  obtain ⟨f, hf⟩ := ((hlinked.up y).connected_iff _).mp (hlinked.connected_port hadj.symm)
  obtain ⟨-, -, hpinged, hheard, hyoung⟩ := hfresh x y hadj e he f hf
  refine ⟨e, f, e, f, he, hf, he, hf, rfl, rfl, rfl, rfl, Heartbeat.kept_nil hyoung ?_ ?_⟩
  · exact Int.ofNat_le.mpr hpinged
  · exact Int.ofNat_le.mpr hheard

/-- A calm step in time finds no link silent. -/
theorem Tracked.mild (h : T.Tracked start began period run net) (hlinked : T.Linked net)
    (hfresh : T.Fresh began period delay start) (hcalm : net.Calm act)
    (hnow : ∀ x y, T.graph.Adj x y → ∀ now, act.time = some now →
      Heartbeat.OnTime began.ticks period delay (T.beats x y run) now.ticks) : net.Mild act := by
  cases act with
  | deliver => trivial
  | work x label =>
    refine ⟨Node.mild_of_calm hcalm.1 fun host now e hticked htime he => ?_, hcalm.2⟩
    obtain ⟨y, hadj, rfl⟩ := (hlinked.connected x host).mp
      (((hlinked.up x).connected_iff host).mpr ⟨e, he⟩)
    exact h.onTick_of_onTime hlinked hfresh hadj (hnow y x hadj.symm now htime) he

/-- **No link is lost** in a network in time: the links are up and young, nothing happens to them
but that lines arrive and the timers tick, the timers of each link tick once a period, and what is
written after a ping arrives within the delay. Then every step takes no link down. -/
theorem mild_of_punctual (hstart : T.Linked start) (hfresh : T.Fresh began period delay start)
    (hcalm : ∀ p ∈ Run.trace T.perform start acts, p.1.Calm p.2)
    (hpunctual : T.Punctual began period delay (Run.trace T.perform start acts)) :
    (∀ p ∈ Run.trace T.perform start acts, p.1.Mild p.2) ∧
      T.Linked (Run.final T.perform start acts) := by
  suffices h : (∀ p ∈ Run.trace T.perform start acts, p.1.Mild p.2) ∧
      T.Linked (Run.final T.perform start acts) ∧
        T.Tracked start began period (Run.trace T.perform start acts)
          (Run.final T.perform start acts) from ⟨h.1, h.2.1⟩
  induction acts using List.reverseRecOn with
  | nil => exact ⟨by rintro _ ⟨⟩, hstart, hfresh.tracked hstart⟩
  | append_singleton acts act ih =>
    rw [Run.trace_append, Run.trace_cons, Run.trace_nil] at hcalm hpunctual ⊢
    rw [Run.final_append, Run.final_cons, Run.final_nil]
    obtain ⟨hbefore, hnow⟩ := hpunctual.append
    obtain ⟨hmild, hlinked, htracked⟩ :=
      ih (fun p hp => hcalm p (List.mem_append_left _ hp)) hbefore
    have hlast := htracked.mild hlinked hfresh
      (hcalm _ (List.mem_append_right _ (List.mem_singleton_self _))) hnow
    refine ⟨fun p hp => ?_, hlinked.step hlast, htracked.step hlinked hfresh hlast hnow⟩
    rcases List.mem_append.mp hp with hp | hp
    · exact hmild p hp
    · exact List.mem_singleton.mp hp ▸ hlast

/-- A second of the calendar. -/
def second (k : ℕ) : DateTimeOffset := HostLinkEngine.moment (k * 10000000)

/-- In the star everybody pings after a minute, hears of it within a second, and finds nothing to
do two thirds of a minute later. -/
def exampleMinute : List (Act (Fin 3)) :=
  [.work exampleEast (.uplinkTick (second 60)), .work exampleWest (.uplinkTick (second 60)),
    .work exampleMiddle (.peerTick (second 60) (Node.peerIdOf 1)),
    .work exampleMiddle (.peerTick (second 60) (Node.peerIdOf 2)),
    .deliver exampleEast exampleMiddle (second 61), .deliver exampleWest exampleMiddle (second 61),
    .deliver exampleMiddle exampleEast (second 61), .deliver exampleMiddle exampleWest (second 61),
    .work exampleMiddle (.read (second 61) (Node.peerIdOf 1)),
    .work exampleMiddle (.read (second 61) (Node.peerIdOf 2)),
    .work exampleEast (.uplinkTick (second 100)), .work exampleWest (.uplinkTick (second 100)),
    .work exampleMiddle (.peerTick (second 100) (Node.peerIdOf 1)),
    .work exampleMiddle (.peerTick (second 100) (Node.peerIdOf 2))]

/-- The links of the star are up at the end. -/
theorem mild_exampleMinute :
    (∀ p ∈ Run.trace exampleStar.perform exampleNetwork exampleMinute, p.1.Mild p.2) ∧
      exampleStar.Linked (Run.final exampleStar.perform exampleNetwork exampleMinute) := by
  have hfresh : exampleStar.Fresh (second 0) (60 * 10000000) (30 * 10000000) exampleNetwork := by
    decide +kernel
  have hpunctual : exampleStar.Punctual (second 0) (60 * 10000000) (30 * 10000000)
      (Run.trace exampleStar.perform exampleNetwork exampleMinute) := by
    decide +kernel
  exact mild_of_punctual linked_exampleNetwork hfresh (by decide +kernel) hpunctual

end Topology

end Convers
