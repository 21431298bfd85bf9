import Convers.Host.Parent

/-!
# The announcement to a new peer

A peer is registered when its handshake is complete, and from then on the owning loop
passes it what happens. What was the case before, its session announces: it asks the loop
for a snapshot and then puts the commands for it on the queue of the peer, one after
another, while the loop goes on. `Convers.Node.current_of_steady` is when the peer ends up
with the channels our table shows: no step of the loop may move a user whose announcement
is still to be put on the queue, since the old channel is then put there last
(`Convers.Node.not_current_exampleRace`).

The rest of the condition (`Convers.Node.SteadyFor`) is about commands that reach the hub
and the peers apart: presence that the parent sends ahead of its greeting, presence of one
of our own users, which the hub ignores and the relay passes on, and an entry that is
stored anew from a session on another channel.
-/

namespace Convers

namespace HostCommand

/-- The channel a command puts a user on, or that it signs him off; for most commands and
users, neither. -/
def places (k : Text × Text) (command : HostCommand) : Option (Option Int32) :=
  match HostBridge.toEvent command with
  | .ok (some (.hostUser user host _ _ toChannel _ _)) =>
    if k = (Callsigns.normalize user, Callsigns.normalize host) ∧ Callsigns.isValidName k.1 ∧
        Callsigns.isValidName k.2 then
      if toChannel = -1 then some none
      else if ChannelNumber.isValid toChannel then some (some toChannel)
      else none
    else none
  | _ => none

/-- The channel of a user after some commands. -/
def placedBy (k : Text × Text) (commands : List HostCommand) (channel : Option Int32) :
    Option Int32 :=
  commands.foldl (fun channel c => (c.places k).getD channel) channel

/-- **What a command tells of a channel** is where it puts the user. The channel is followed on its
own from here on, without the texts. -/
theorem map_fst_tells (k : Text × Text) (known : Option (Int32 × Text)) (c : HostCommand) :
    (c.tells k known).map Prod.fst = (c.places k).getD (known.map Prod.fst) := by
  rw [tells, places]
  rcases HostBridge.toEvent c with fault | _ | e
  · rfl
  · rfl
  · cases e with
    | hostUser user host timestamp fromChannel toChannel personal observer =>
      dsimp only [ConversEvent.tells]
      split
      · split
        · rfl
        · split
          · rfl
          · rfl
      · rfl
    | hostAway user host timestamp text =>
      dsimp only [ConversEvent.tells]
      split
      · rw [Option.map_map]
        rfl
      · rfl
    | _ => rfl

theorem map_fst_toldBy (k : Text × Text) (commands : List HostCommand)
    (known : Option (Int32 × Text)) :
    (toldBy k commands known).map Prod.fst = placedBy k commands (known.map Prod.fst) := by
  induction commands generalizing known with
  | nil => rfl
  | cons c commands ih => rw [toldBy_cons, ih, map_fst_tells, placedBy, placedBy, List.foldl_cons]

theorem placedBy_append (k : Text × Text) (commands commands' : List HostCommand)
    (channel : Option Int32) :
    placedBy k (commands ++ commands') channel =
      placedBy k commands' (placedBy k commands channel) := List.foldl_append

/-- Commands that put the user nowhere. -/
theorem placedBy_eq_self {k : Text × Text} {commands : List HostCommand}
    (h : ∀ c ∈ commands, c.places k = none) (channel : Option Int32) :
    placedBy k commands channel = channel := by
  induction commands with
  | nil => rfl
  | cons c commands ih =>
    rw [placedBy, List.foldl_cons, h c (by simp)]
    exact ih fun d hd => h d (List.mem_cons_of_mem _ hd)

/-- **Commands that put the user somewhere** forget where he was. A full announcement therefore
repairs whatever a peer had heard before it. -/
theorem placedBy_eq {k : Text × Text} {commands : List HostCommand}
    (h : ∃ c ∈ commands, (c.places k).isSome = true) (channel channel' : Option Int32) :
    placedBy k commands channel = placedBy k commands channel' := by
  induction commands generalizing channel channel' with
  | nil =>
    obtain ⟨c, hc, -⟩ := h
    cases hc
  | cons c commands ih =>
    rw [placedBy, placedBy, List.foldl_cons, List.foldl_cons]
    rcases hplaces : c.places k with _ | place
    · obtain ⟨d, hd, hsome⟩ := h
      rcases List.mem_cons.mp hd with rfl | hd
      · rw [hplaces] at hsome
        cases hsome
      · exact ih ⟨d, hd, hsome⟩ _ _
    · rfl

/-- A command that tells of nobody puts nobody anywhere. -/
theorem places_eq_none {k : Text × Text} {c : HostCommand}
    (h : ∀ known, c.tells k known = known) : c.places k = none := by
  have hplaces : ∀ known : Option (Int32 × Text),
      (c.places k).getD (known.map Prod.fst) = known.map Prod.fst := by
    intro known
    rw [← map_fst_tells, h]
  rcases hplace : c.places k with _ | place
  · rfl
  · rw [hplace] at hplaces
    -- one place for a user nobody knows and for one on a channel
    have hnone : place = none := hplaces none
    have hsome : place = some 0 := hplaces (some (0, []))
    rw [hnone] at hsome
    cases hsome

end HostCommand

/-! ### What a command does to the table -/

namespace HostLinkEngine

variable {now : DateTimeOffset} {e e' : HostLinkEngine} {line : Text} {step : EngineStep}

/-- **No reply of the engine puts a user anywhere.** The handshake of a peer and its keepalive need
not be followed. -/
theorem places_of_reply (h : e.onLineReceived now line = .ok (e', step)) (k : Text × Text) :
    ∀ c ∈ step.outboundCommands, c.places k = none := by
  intro c hc
  rcases hcontent : PeerRelay.contentOf line with _ | command
  · exact HostCommand.places_eq_none ((onLineReceived_linkLocal hcontent h).1 c hc k)
  · rw [(onLineReceived_content hcontent h).2.1] at hc
    cases hc

/-- What an open link makes of content is the event of the bridge. -/
theorem hubEvents_of_content (hopen : e.state = .handshaking ∨ e.state = .established)
    {c : HostCommand} (hcontent : PeerRelay.contentOf line = some c)
    (h : e.onLineReceived now line = .ok (e', step)) :
    ∃ event, HostBridge.toEvent c = .ok event ∧ step.hubEvents = event.toList := by
  have hbridge : ∀ {e₀ : HostLinkEngine}, (HostBridge.toEvent c >>= fun event =>
      Except.ok (e₀, { EngineStep.none with hubEvents := event.toList })) = .ok (e', step) →
        ∃ event, HostBridge.toEvent c = .ok event ∧ step.hubEvents = event.toList := by
    intro e₀ hok
    rcases hto : HostBridge.toEvent c with fault | event
    · rw [hto] at hok
      cases hok
    · rw [hto] at hok
      cases hok
      exact ⟨event, rfl, rfl⟩
  obtain ⟨hparsed, hlocal⟩ := PeerRelay.contentOf_eq_some.mp hcontent
  rw [onLineReceived_eq, hparsed] at h
  rcases hopen with hstate | hstate
  · simp only [hstate] at h
    cases c with
    | hostHandshake hostname software facilities => cases hlocal
    | _ => exact hbridge h
  · simp only [hstate] at h
    cases c with
    | hostHandshake hostname software facilities => cases hlocal
    | hostPong time | hostLoop detail => cases hlocal
    | hostRoute dest user ttl | hostSysInfo user host => cases hlocal
    | _ => exact hbridge h

end HostLinkEngine

namespace HostLink

variable (links : Links) (now : DateTimeOffset) (h : Hub)

/-- The event of a command reaches the hub. -/
theorem hub_applyEvents_toList (exceptPeerId : Option Text) {c : HostCommand}
    {event : Option ConversEvent} (hevent : HostBridge.toEvent c = .ok event) :
    (applyEvents links exceptPeerId now h event.toList).1 = h.heed now c := by
  rw [Hub.heed, hevent]
  rcases event with _ | event
  · rfl
  · rw [Option.toList_some, applyEvents]
    dsimp only
    split
    · rfl
    · rfl

/-- **The command of a peer reaches the hub.** What the relay does before it does not touch the hub.
-/
theorem hub_applyPeerInbound (c : HostCommand) (originPeerId : Text) :
    (applyPeerInbound links now h c originPeerId).1 = h.heed now c := by
  rw [applyPeerInbound]
  rcases hevent : HostBridge.toEvent c with fault | event
  · rw [Hub.heed, hevent]
  · exact hub_applyEvents_toList links now h _ hevent

/-- **Content of the parent reaches the hub.** It reaches it whether or not the link was
established, unlike the peers. -/
theorem hub_receiveLine {e engine : HostLinkEngine} {line : Text} {step : EngineStep}
    (hopen : e.state = .handshaking ∨ e.state = .established) {c : HostCommand}
    (hcontent : PeerRelay.contentOf line = some c)
    (hread : e.onLineReceived now line = .ok (engine, step)) :
    (receiveLine links now e h line).2.1 = h.heed now c := by
  obtain ⟨event, hevent, hevents⟩ := HostLinkEngine.hubEvents_of_content hopen hcontent hread
  have happlied : (applyStep links now h step).1 = h.heed now c := by
    rw [applyStep, hevents]
    exact hub_applyEvents_toList links now h none hevent
  rw [receiveLine, hread]
  dsimp only
  rcases step.dropReason with _ | reason
  · exact happlied
  · exact happlied

end HostLink

namespace Hub

variable {h : Hub}

/-- **The channel of a user follows a command** of another host, unless he is one of our own. A peer
that is passed the same command ends with the same channel. -/
theorem channel_heed (hsound : h.Sound) (now : DateTimeOffset) (c : HostCommand)
    {k : Text × Text}
    (htracks : ∀ e, HostBridge.toEvent c = .ok (some e) → h.Tracks e k) :
    ((h.heed now c).shows k).map Prod.fst =
      if k.2 = h.hostName then (h.shows k).map Prod.fst
      else HostCommand.placedBy k [c] ((h.shows k).map Prod.fst) := by
  have htold : HostCommand.placedBy k [c] ((h.shows k).map Prod.fst) =
      (c.tells k (h.shows k)).map Prod.fst := (HostCommand.map_fst_tells k _ c).symm
  rw [htold, heed, HostCommand.tells]
  rcases hevent : HostBridge.toEvent c with fault | _ | e
  · exact (ite_self _).symm
  · exact (ite_self _).symm
  · dsimp only
    split
    · rename_i hk
      exact channel_step_of_own hsound.canonical now (HostBridge.isLocal_of_toEvent hevent).1
        (htracks e hevent) hk
    · rename_i hk
      rw [shows_of_remote hsound.canonical hsound.host.1 hk]

/-- The commands of the hosts keep the names valid. -/
theorem Sound.heed (hsound : h.Sound) (now : DateTimeOffset) (c : HostCommand) :
    (h.heed now c).Sound := by
  rw [Hub.heed]
  split
  · rename_i e hevent
    refine hsound.step now fun sessionId callsign channel heq => ?_
    rw [heq] at hevent
    cases (HostBridge.isLocal_of_toEvent hevent).1
  · exact hsound

end Hub

namespace Node

open HostCommand (places placedBy placedBy_append placedBy_eq placedBy_eq_self toldBy)
open HostLink (enqueuedTo attempted uplinkPeerId)

/-! ### The run of a peer -/

/-- A step, with the commands put on the queue of a peer since it was registered. -/
def enqueued (peerId : Text) (p : Node × List HostCommand) (label : Label) :
    Node × List HostCommand :=
  (p.1.step label,
    if peerId ∈ p.1.links.peers then p.2 ++ enqueuedTo peerId (p.1.effects label) else [])

/-- **The announcement is not stale**: when the session has announced, the commands put on
the queue of the peer since it was registered show a user on the channel our table shows,
to a host that is not the user's own. -/
def Current (peerId : Text) (k : Text × Text) (p : Node × List HostCommand) : Prop :=
  ∀ s, p.1.sessions.find? peerId = some s → s.registered = true → s.phase = .receiving →
    ∀ now viewer, k.2 ≠ Callsigns.normalize viewer →
      ((Hub.view now viewer p.2).users.find? k).map NetworkUser.channel =
        (p.1.hub.users.find? k).map NetworkUser.channel

/-! ### What a step does about a user -/

/-- A session has yet to put a user somewhere. -/
def Pends (k : Text × Text) (phase : SessionPhase) : Prop :=
  match phase with
  | .announcing commands => ∃ c ∈ commands, (c.places k).isSome = true
  | _ => False

section Step

variable (n : Node) (label : Label)

/-- The event a step advances the hub with, but for those of a single link. -/
def advances : Option ConversEvent :=
  match label with
  | .drain _ =>
    match n.queue with
    | .event event :: _ => some event
    | .peer command _ :: _ => (HostBridge.toEvent command).toOption.join
    | _ => none
  | .uplinkLine .. => (n.handled label).bind fun p => (HostBridge.toEvent p.2).toOption.join
  | _ => none

/-- The commands a step has for the other hosts: what is said of a local event, and the
command of another host. -/
def passes : List HostCommand :=
  match label with
  | .drain now =>
    match n.queue with
    | .event event :: _ => ((Hub.said now n.hub event).bind HostBridge.toHostCommand).toList
    | .peer command _ :: _ => [command]
    | _ => []
  | .uplinkLine .. => (n.handled label).toList.map Prod.snd
  | _ => []

/-- The channel our table shows of a user. -/
def channelOf (k : Text × Text) : Option Int32 := (n.hub.shows k).map Prod.fst

/-- What a step passes on puts a user on another channel than the table shows. -/
def Moves (k : Text × Text) : Prop := placedBy k (n.passes label) (n.channelOf k) ≠ n.channelOf k

/-- A step deals with presence of a user that the peer itself announces. -/
def AnnouncedBy (peerId : Text) (k : Text × Text) : Prop :=
  ∃ p ∈ n.handled label, p.1 = .peer peerId ∧ (p.2.places k).isSome = true

/-- The session of a peer has yet to announce a user. -/
def Announces (peerId : Text) (k : Text × Text) : Prop :=
  ∃ s ∈ n.sessions.find? peerId, Pends k s.phase

/-- A line of a parent that has not greeted yet. -/
def IsEarly : Prop :=
  match label with
  | .uplinkLine .. => ∃ engine ∈ n.uplink, engine.state ≠ .established
  | _ => False

/-- **The hub and a peer may come apart** about a user: his announcement is still to come, or
he is ours and another host speaks of him, or he is not and the parent speaks too early. -/
def Risks (peerId : Text) (k : Text × Text) : Prop :=
  n.Announces peerId k ∨ (k.2 = n.hub.hostName ∧ (n.handled label).isSome = true) ∨
    (k.2 ≠ n.hub.hostName ∧ n.IsEarly label)

/-- What is submitted is a local event, and a join is under a valid callsign. -/
def Submits : Label → Prop
  | .submit event => event.isLocal = true ∧ event.isNamed = true
  | _ => True

/-- **The steps that keep an announcement current**, about one user. -/
structure SteadyFor (peerId : Text) (k : Text × Text) : Prop where
  submits : Submits label
  /-- Every session whose entry may be stored anew is on the channel the table shows. -/
  tracks : peerId ∈ n.links.peers → ∀ e ∈ n.advances label, n.hub.Tracks e k
  /-- Nobody is moved where the hub and the peer may come apart. -/
  moves : peerId ∈ n.links.peers → n.Risks label peerId k → ¬n.Moves label k

end Step

/-! ### What the peer knows -/

/-- What a peer knows of a user's channel, by what its session is at: before the snapshot
nothing or what is the case, then what its announcement completes, and then what is the
case. -/
def Knows (k : Text × Text) (phase : SessionPhase) (known channel : Option Int32) : Prop :=
  match phase with
  | .awaitingSnapshot => known = none ∨ known = channel
  | .announcing commands => placedBy k commands known = channel
  | .receiving => known = channel

/-- **A peer that hears what the table does stays with it**, if the user is not moved before his
announcement. This is where a stale announcement would come in, and the condition shuts it out. -/
theorem Knows.hears {k : Text × Text} {phase : SessionPhase} {known channel : Option Int32}
    (hknows : Knows k phase known channel) {commands : List HostCommand} {channel' : Option Int32}
    (hchannel : channel' = placedBy k commands channel)
    (hpends : Pends k phase → channel' = channel) :
    Knows k phase (placedBy k commands known) channel' := by
  by_cases hplaced : ∃ c ∈ commands, (c.places k).isSome = true
  · have hsame : ∀ known, placedBy k commands known = channel' := fun known =>
      (placedBy_eq hplaced known channel).trans hchannel.symm
    rw [hsame]
    cases phase with
    | receiving => rfl
    | awaitingSnapshot => exact Or.inr rfl
    | announcing pending =>
      by_cases hpending : ∃ c ∈ pending, (c.places k).isSome = true
      · exact (placedBy_eq hpending channel' known).trans (hknows.trans (hpends hpending).symm)
      · refine placedBy_eq_self (fun c hc => ?_) _
        by_contra hne
        exact hpending ⟨c, hc, Option.isSome_iff_ne_none.mpr hne⟩
  · have hnone : ∀ c ∈ commands, c.places k = none := by
      intro c hc
      by_contra hne
      exact hplaced ⟨c, hc, Option.isSome_iff_ne_none.mpr hne⟩
    rw [placedBy_eq_self hnone] at hchannel ⊢
    rw [hchannel]
    exact hknows

/-- **The announcement of everything** puts a user where the table shows him. It is what a session
has to announce when it takes its snapshot. -/
theorem placedBy_presence {h : Hub} (hsound : h.Sound) (k : Text × Text) {known : Option Int32}
    (hknown : known = none ∨ known = (h.shows k).map Prod.fst) :
    placedBy k (presence h) known = (h.shows k).map Prod.fst := by
  have htold : ∀ seen : Option (Int32 × Text), seen = none ∨ seen = h.shows k →
      placedBy k (presence h) (seen.map Prod.fst) = (h.shows k).map Prod.fst := by
    intro seen hseen
    rw [← HostCommand.map_fst_toldBy, toldBy_presence hsound, Hub.shows]
    rcases hu : h.users.find? k with _ | u
    · rw [Hub.shows, hu] at hseen
      rcases hseen with rfl | rfl
      · rfl
      · rfl
    · rfl
  rcases hknown with rfl | rfl
  · exact htold none (Or.inl rfl)
  · exact htold _ (Or.inr rfl)

/-! ### Steps of a run -/

/-- **The peer follows the table**, about one user. -/
structure Synced (peerId : Text) (k : Text × Text) (n : Node) (commands : List HostCommand) :
    Prop where
  orderly : n.Orderly
  sound : n.hub.Sound
  queue : ∀ e, HubWork.event e ∈ n.queue → e.isLocal = true ∧ e.isNamed = true
  knows : ∀ s, n.sessions.find? peerId = some s → s.registered = true →
    Knows k s.phase (placedBy k commands none) (n.channelOf k)

section Synced

variable {peerId : Text} {k : Text × Text} {n : Node} {commands : List HostCommand}

/-- The peers are those whose sessions are registered. -/
theorem mem_peers : peerId ∈ n.links.peers ↔
    ∃ s, n.sessions.find? peerId = some s ∧ s.registered = true := by
  constructor
  · intro hpeer
    obtain ⟨s, hs, rfl⟩ := List.mem_map.mp hpeer
    obtain ⟨hmem, hreg⟩ := List.mem_filter.mp hs
    exact ⟨s, Table.mem_records.mp hmem, hreg⟩
  · rintro ⟨s, hs, hreg⟩
    refine List.mem_map.mpr ⟨s, List.mem_filter.mpr ⟨Table.mem_of_find? hs, hreg⟩, ?_⟩
    exact Table.key_of_find? hs

/-- What a step puts on the queue goes after what is there. -/
theorem Synced.of_next (hsynced : Synced peerId k n commands) {n' : Node} {label : Label}
    {calls : List HostLink.Effect} (hnext : n.next label = (n', calls)) (hsound : n'.hub.Sound)
    (hqueue : ∀ e, HubWork.event e ∈ n'.queue → e.isLocal = true ∧ e.isNamed = true)
    (hknows : ∀ s, n'.sessions.find? peerId = some s → s.registered = true →
      Knows k s.phase (placedBy k (if peerId ∈ n.links.peers then
        commands ++ enqueuedTo peerId calls else []) none) (n'.channelOf k)) :
    Synced peerId k (enqueued peerId (n, commands) label).1
      (enqueued peerId (n, commands) label).2 := by
  have horderly := hsynced.orderly.step label
  rw [step, hnext] at horderly
  rw [enqueued]
  dsimp only
  rw [step, effects, hnext]
  exact ⟨horderly, hsound, hqueue, hknows⟩

/-- **A step that moves nobody**: the hub stays, and so does what the session of the peer is at, and
nothing that puts the user anywhere goes on the queue. Most steps are of this kind. -/
theorem Synced.of_quiet (hsynced : Synced peerId k n commands) {n' : Node} {label : Label}
    {calls : List HostLink.Effect} (hnext : n.next label = (n', calls)) (hhub : n'.hub = n.hub)
    (hqueue : ∀ e, HubWork.event e ∈ n'.queue → e.isLocal = true ∧ e.isNamed = true)
    (hsessions : ∀ s', n'.sessions.find? peerId = some s' → s'.registered = true →
      ∃ s, n.sessions.find? peerId = some s ∧ s.registered = true ∧ s.phase = s'.phase)
    (hcalls : ∀ c ∈ enqueuedTo peerId calls, c.places k = none) :
    Synced peerId k (enqueued peerId (n, commands) label).1
      (enqueued peerId (n, commands) label).2 := by
  refine hsynced.of_next hnext (hhub ▸ hsynced.sound) hqueue fun s' hs' hreg' => ?_
  obtain ⟨s, hs, hreg, hphase⟩ := hsessions s' hs' hreg'
  rw [if_pos (mem_peers.mpr ⟨s, hs, hreg⟩), placedBy_append, placedBy_eq_self hcalls, ← hphase]
  have hchannel : n'.channelOf k = n.channelOf k := by rw [channelOf, channelOf, hhub]
  rw [hchannel]
  exact hsynced.knows s hs hreg

/-- A step that does nothing. -/
theorem Synced.of_stays (hsynced : Synced peerId k n commands) {label : Label}
    (hnext : n.next label = (n, [])) :
    Synced peerId k (enqueued peerId (n, commands) label).1
      (enqueued peerId (n, commands) label).2 :=
  hsynced.of_quiet hnext rfl hsynced.queue (fun s hs hreg => ⟨s, hs, hreg, rfl⟩) nofun

/-- **A step of the table** that is told to the peer. What is left to show of such a step is that
the peer is passed what the table takes. -/
theorem Synced.of_told (hsynced : Synced peerId k n commands) {n' : Node} {label : Label}
    {calls : List HostLink.Effect} (hnext : n.next label = (n', calls)) (hsound : n'.hub.Sound)
    (hqueue : ∀ e, HubWork.event e ∈ n'.queue → e.isLocal = true ∧ e.isNamed = true)
    (hsessions : n'.sessions = n.sessions)
    (htold : peerId ∈ n.links.peers →
      n'.channelOf k = placedBy k (enqueuedTo peerId calls) (n.channelOf k) ∧
        (n.Announces peerId k → n'.channelOf k = n.channelOf k)) :
    Synced peerId k (enqueued peerId (n, commands) label).1
      (enqueued peerId (n, commands) label).2 := by
  refine hsynced.of_next hnext hsound hqueue fun s hs hreg => ?_
  rw [hsessions] at hs
  have hpeer := mem_peers.mpr ⟨s, hs, hreg⟩
  obtain ⟨hchannel, hannounces⟩ := htold hpeer
  rw [if_pos hpeer, placedBy_append]
  refine (hsynced.knows s hs hreg).hears hchannel fun hpends => hannounces ⟨s, hs, ?_⟩
  exact hpends

/-- What a local event says is passed on. -/
theorem Synced.drain_event (hsynced : Synced peerId k n commands) {now : DateTimeOffset}
    (hsteady : n.SteadyFor (.drain now) peerId k) {e : ConversEvent} {queue : List HubWork}
    (hqueue : n.queue = .event e :: queue) :
    Synced peerId k (enqueued peerId (n, commands) (.drain now)).1
      (enqueued peerId (n, commands) (.drain now)).2 := by
  obtain ⟨hlocal, hnamed⟩ := hsynced.queue e (by rw [hqueue]; simp)
  have hjoin : ∀ sessionId callsign channel, e = .localJoin sessionId callsign channel →
      Callsigns.isValidName callsign = true := by
    rintro sessionId callsign channel rfl
    exact hnamed
  have hnext : n.next (.drain now) = ({ n with hub := Hub.step n.hub (now, e), queue := queue },
      (HostLink.drainLocalEvent n.links HostLink.isLoggableLocal HostLink.allSucceed now n.hub
        e).2.effects) := by
    rw [next, Node.drain, hqueue]
    dsimp only
    rw [HostLink.hub_drainLocalEvent]
  have hpasses : n.passes (.drain now) =
      ((Hub.said now n.hub e).bind HostBridge.toHostCommand).toList := by
    rw [passes, hqueue]
  have hadvances : n.advances (.drain now) = some e := by rw [advances, hqueue]
  refine hsynced.of_told hnext (hsynced.sound.step now hjoin)
    (fun w hw => hsynced.queue w (hqueue ▸ List.mem_cons_of_mem _ hw)) rfl fun hpeer => ?_
  have hchannel : ((Hub.step n.hub (now, e)).shows k).map Prod.fst =
      placedBy k (n.passes (.drain now)) (n.channelOf k) := by
    rw [Hub.channel_step_of_isLocal hsynced.sound now hlocal hjoin
      (hsteady.tracks hpeer e hadvances), hpasses, channelOf, ← HostCommand.map_fst_toldBy,
      HostLink.toldBy_said]
  rw [HostLink.enqueuedTo_drainLocalEvent n.links now n.hub hlocal hpeer, ← hpasses]
  exact ⟨hchannel, fun hannounces =>
    hchannel.trans (not_not.mp (hsteady.moves hpeer (Or.inl hannounces)))⟩

/-- **A command of another host** is told to the peer, or moves nobody. The relay and the hub look
at the same command, and so come to the same channel. -/
theorem Synced.told_of_command (hsynced : Synced peerId k n commands) {label : Label}
    (hsteady : n.SteadyFor label peerId k) {c : HostCommand} (hpasses : n.passes label = [c])
    (hadvances : n.advances label = (HostBridge.toEvent c).toOption.join)
    (hhandled : (n.handled label).isSome = true) (now : DateTimeOffset)
    (hpeer : peerId ∈ n.links.peers) {told : List HostCommand}
    (htold : told = [c] ∨ told = [] ∧ (c.places k = none ∨ n.IsEarly label)) :
    ((n.hub.heed now c).shows k).map Prod.fst = placedBy k told (n.channelOf k) ∧
      (n.Announces peerId k →
        ((n.hub.heed now c).shows k).map Prod.fst = n.channelOf k) := by
  have hchannel := Hub.channel_heed hsynced.sound now c (k := k) fun e he =>
    hsteady.tracks hpeer e (by rw [hadvances, he]; rfl)
  have hstays : n.Risks label peerId k → placedBy k [c] (n.channelOf k) = n.channelOf k := by
    intro hrisks
    have hnot := hsteady.moves hpeer hrisks
    rw [Moves, hpasses] at hnot
    exact not_not.mp hnot
  have hmoves : ((n.hub.heed now c).shows k).map Prod.fst =
      placedBy k [c] (n.channelOf k) := by
    rw [hchannel]
    split
    · rename_i hk
      exact (hstays (Or.inr (Or.inl ⟨hk, hhandled⟩))).symm
    · rfl
  refine ⟨?_, fun hannounces => hmoves.trans (hstays (Or.inl hannounces))⟩
  rcases htold with rfl | ⟨rfl, hplaces | hearly⟩
  · exact hmoves
  · rw [hmoves]
    exact placedBy_eq_self (fun d hd => List.mem_singleton.mp hd ▸ hplaces) _
  · rw [hchannel]
    split
    · rfl
    · rename_i hk
      exact hstays (Or.inr (Or.inr ⟨hk, hearly⟩))

/-- The command of a peer is passed to every other. -/
theorem Synced.drain_peer (hsynced : Synced peerId k n commands) {now : DateTimeOffset}
    (hsteady : n.SteadyFor (.drain now) peerId k) (hother : ¬n.AnnouncedBy (.drain now) peerId k)
    {c : HostCommand} {origin : Text} {queue : List HubWork}
    (hqueue : n.queue = .peer c origin :: queue) :
    Synced peerId k (enqueued peerId (n, commands) (.drain now)).1
      (enqueued peerId (n, commands) (.drain now)).2 := by
  obtain ⟨hcontent, horigin⟩ := hsynced.orderly.queue c origin (by rw [hqueue]; simp)
  have hnext : n.next (.drain now) = ({ n with hub := n.hub.heed now c, queue := queue },
      (HostLink.applyPeerInbound n.links now n.hub c origin).2) := by
    rw [next, Node.drain, hqueue]
    dsimp only
    rw [HostLink.hub_applyPeerInbound]
  have hhandled : n.handled (.drain now) = some (.peer origin, c) := by rw [handled, hqueue]
  have hpasses : n.passes (.drain now) = [c] := by rw [passes, hqueue]
  have hadvances : n.advances (.drain now) = (HostBridge.toEvent c).toOption.join := by
    rw [advances, hqueue]
  refine hsynced.of_told hnext (hsynced.sound.heed now c)
    (fun w hw => hsynced.queue w (hqueue ▸ List.mem_cons_of_mem _ hw)) rfl fun hpeer => ?_
  refine hsynced.told_of_command hsteady hpasses hadvances (by rw [hhandled]; rfl) now hpeer ?_
  have hwritten := @writtenTo_applyPeerInbound n now c origin hcontent horigin (.peer peerId)
  by_cases hself : peerId = origin
  · refine Or.inr ⟨hwritten.trans (if_neg fun hbad => hbad.1 (by rw [hself])), Or.inl ?_⟩
    -- the peer's own presence
    by_contra hplaces
    refine hother ⟨_, hhandled, by rw [hself], Option.isSome_iff_ne_none.mpr hplaces⟩
  · exact Or.inl (hwritten.trans (if_pos ⟨fun hbad => hself (RemoteHost.peer.inj hbad), hpeer⟩))

/-- **A session takes the snapshot**: its announcement is what is the case. The peer knows nothing
that could be wrong before its announcement begins. -/
theorem Synced.drain_snapshot (hsynced : Synced peerId k n commands) {now : DateTimeOffset}
    {id : Text} {queue : List HubWork} (hqueue : n.queue = .snapshot id :: queue) :
    Synced peerId k (enqueued peerId (n, commands) (.drain now)).1
      (enqueued peerId (n, commands) (.drain now)).2 := by
  have hrest : ∀ e, HubWork.event e ∈ queue → e.isLocal = true ∧ e.isNamed = true :=
    fun w hw => hsynced.queue w (hqueue ▸ List.mem_cons_of_mem _ hw)
  have hpopped : n.next (.drain now) = ({ n with queue := queue }, []) →
      Synced peerId k (enqueued peerId (n, commands) (.drain now)).1
        (enqueued peerId (n, commands) (.drain now)).2 := fun hnext =>
    hsynced.of_quiet hnext rfl hrest (fun s hs hreg => ⟨s, hs, hreg, rfl⟩) nofun
  rcases hfind : n.sessions.find? id with _ | session
  · refine hpopped ?_
    rw [next, Node.drain, hqueue]
    dsimp only
    rw [hfind]
  by_cases hphase : session.phase = .awaitingSnapshot
  · have hnext : n.next (.drain now) = (({ n with queue := queue } : Node).putSession
        { session with phase := .announcing (presence n.hub) }, []) := by
      rw [next, Node.drain, hqueue]
      dsimp only
      rw [hfind]
      dsimp only
      rw [if_pos hphase]
    have hid : session.id = id := Table.key_of_find? hfind
    refine hsynced.of_next hnext hsynced.sound hrest fun s' hs' hreg' => ?_
    rw [putSession] at hs'
    dsimp only at hs'
    rw [Table.find?_put] at hs'
    split at hs'
    · rename_i hself
      have hself : peerId = id := hself.trans hid
      cases hs'
      rw [← hself] at hfind
      have hknows := hsynced.knows session hfind hreg'
      rw [hphase] at hknows
      rw [if_pos (mem_peers.mpr ⟨session, hfind, hreg'⟩), placedBy_append]
      exact placedBy_presence hsynced.sound k hknows
    · rw [if_pos (mem_peers.mpr ⟨s', hs', hreg'⟩)]
      refine (congrArg (Knows k s'.phase · _) ?_).mp (hsynced.knows s' hs' hreg')
      exact congrArg (placedBy k · none) (List.append_nil _).symm
  · refine hpopped ?_
    rw [next, Node.drain, hqueue]
    dsimp only
    rw [hfind]
    dsimp only
    rw [if_neg hphase]

/-- **A line of the parent** is passed on, once it has greeted. Before that the hub hears it and the
peers do not, which is the defect of the relay. -/
theorem Synced.uplinkLine (hsynced : Synced peerId k n commands) {now : DateTimeOffset}
    {line : Text} (hsteady : n.SteadyFor (.uplinkLine now line) peerId k) :
    Synced peerId k (enqueued peerId (n, commands) (.uplinkLine now line)).1
      (enqueued peerId (n, commands) (.uplinkLine now line)).2 := by
  rcases huplink : n.uplink with _ | e
  · have hnext : n.next (.uplinkLine now line) = (n, []) := by rw [next, huplink]
    exact hsynced.of_stays hnext
  have hopen := hsynced.orderly.uplink e huplink
  rcases hread : e.onLineReceived now line with fault | ⟨engine, step⟩
  · -- the exception ends the connection
    have hnext : n.next (.uplinkLine now line) = ({ n with uplink := none }, []) := by
      rw [next, huplink]
      dsimp only
      rw [HostLink.receiveLine, hread]
    exact hsynced.of_quiet hnext rfl hsynced.queue (fun s hs hreg => ⟨s, hs, hreg, rfl⟩)
      (by rintro _ ⟨⟩)
  have hnext : n.next (.uplinkLine now line) =
      ({ n with
          uplink := (HostLink.receiveLine n.links now e n.hub line).1
          hub := (HostLink.receiveLine n.links now e n.hub line).2.1 },
        (HostLink.receiveLine n.links now e n.hub line).2.2) := by
    rw [next, huplink]
  have hwritten : enqueuedTo peerId (HostLink.receiveLine n.links now e n.hub line).2.2 = _ :=
    HostLink.enqueuedTo_receiveLine n.links hread peerId
  rcases hcontent : PeerRelay.contentOf line with _ | c
  · have hhub := (HostLink.receiveLine_linkLocal n.links now n.hub hcontent hread).1
    refine hsynced.of_quiet hnext hhub hsynced.queue (fun s hs hreg => ⟨s, hs, hreg, rfl⟩)
      fun c hc => ?_
    rw [hwritten, hcontent, Option.toList_none, ite_self] at hc
    cases hc
  · have hhub := HostLink.hub_receiveLine n.links now n.hub hopen hcontent hread
    rw [hhub] at hnext
    have hhandled : n.handled (.uplinkLine now line) = some (.uplink, c) := by
      simp [handled, received, heard, huplink, hcontent]
    have hpasses : n.passes (.uplinkLine now line) = [c] := by
      simp [passes, hhandled]
    have hadvances : n.advances (.uplinkLine now line) =
        (HostBridge.toEvent c).toOption.join := by
      simp [advances, hhandled]
    refine hsynced.of_told hnext (hsynced.sound.heed now c) hsynced.queue rfl fun hpeer => ?_
    refine hsynced.told_of_command hsteady hpasses hadvances (by rw [hhandled]; rfl) now hpeer ?_
    have hstate : engine.state = e.state := by
      rw [(HostLinkEngine.onLineReceived_content hcontent hread).1]
    rw [hwritten, hcontent, Option.toList_some]
    by_cases hestablished : e.state = .established
    · exact Or.inl (if_pos ⟨hstate.trans hestablished, hpeer,
        hsynced.orderly.peer_ne_uplink hpeer⟩)
    · refine Or.inr ⟨if_neg fun hbad => hestablished (hstate.symm.trans hbad.1), Or.inr ?_⟩
      exact ⟨e, huplink, hestablished⟩

/-- The commands of a session are for its own peer. -/
theorem enqueuedTo_applyPeerStep_of_ne {id : Text} (hne : peerId ≠ id) (step : EngineStep) :
    enqueuedTo peerId (applyPeerStep id step) = [] :=
  writtenTo_applyPeerStep step fun hbad => hne (RemoteHost.peer.inj hbad)

/-- Replies and pongs put nobody anywhere. -/
theorem places_of_applyPeerStep {step : EngineStep}
    (hreplies : ∀ c ∈ step.outboundCommands, c.places k = none) (id : Text) :
    ∀ c ∈ enqueuedTo peerId (applyPeerStep id step), c.places k = none := by
  intro c hc
  have hmem : c ∈ step.outboundCommands ++ (step.hubEvents.filter
      (· = ConversEvent.hostPing)).map fun _ =>
        HostCommand.hostPong Hub.pongSentinelNoMeasurement := by
    obtain ⟨effect, heffect, hto⟩ := List.mem_filterMap.mp hc
    obtain ⟨d, hd, rfl⟩ := List.mem_map.mp heffect
    dsimp only at hto
    split at hto
    · cases hto
      exact hd
    · cases hto
  rcases List.mem_append.mp hmem with hreply | hpong
  · exact hreplies c hreply
  · obtain ⟨-, -, rfl⟩ := List.mem_map.mp hpong
    rfl

theorem find?_putSession {s : PeerSession} :
    (n.putSession s).sessions.find? peerId =
      if peerId = s.id then some s else n.sessions.find? peerId :=
  Table.find?_put n.sessions s peerId

theorem find?_endSession {id : Text} :
    (n.endSession id).sessions.find? peerId =
      if peerId = id then none else n.sessions.find? peerId :=
  Table.find?_remove n.sessions id peerId

/-- A session that submits content puts it on the queue of the loop. -/
theorem submitContent_cases (n : Node) (id line : Text) :
    (n.submitContent id line).hub = n.hub ∧ (n.submitContent id line).sessions = n.sessions ∧
      ∀ e, HubWork.event e ∈ (n.submitContent id line).queue → HubWork.event e ∈ n.queue := by
  rw [submitContent]
  split
  · refine ⟨rfl, rfl, fun e he => ?_⟩
    rcases List.mem_append.mp he with he | he
    · exact he
    · cases List.mem_singleton.mp he
  · exact ⟨rfl, rfl, fun e he => he⟩

/-- A session that goes over to another state at the same phase. -/
theorem kept_putSession {old s : PeerSession} {id : Text} (hold : n.sessions.find? id = some old)
    (hid : s.id = old.id) (hreg : s.registered = old.registered) (hphase : s.phase = old.phase) :
    ∀ s', (n.putSession s).sessions.find? peerId = some s' → s'.registered = true →
      ∃ s, n.sessions.find? peerId = some s ∧ s.registered = true ∧ s.phase = s'.phase := by
  intro s' hs' hreg'
  have holdid : old.id = id := Table.key_of_find? hold
  rw [find?_putSession] at hs'
  split at hs'
  · rename_i hself
    cases hs'
    rw [hid, holdid] at hself
    exact ⟨old, hself ▸ hold, hreg.symm.trans hreg', hphase.symm⟩
  · exact ⟨s', hs', hreg', rfl⟩

/-- A session that ends leaves the others. -/
theorem kept_endSession {id : Text} :
    ∀ s', (n.endSession id).sessions.find? peerId = some s' → s'.registered = true →
      ∃ s, n.sessions.find? peerId = some s ∧ s.registered = true ∧ s.phase = s'.phase := by
  intro s' hs' hreg'
  rw [find?_endSession] at hs'
  split at hs'
  · cases hs'
  · exact ⟨s', hs', hreg', rfl⟩

/-- **A session goes on** with its announcement. One command of it goes on the queue, and is one
less to come. -/
theorem Synced.proceed (hsynced : Synced peerId k n commands) (id : Text) :
    Synced peerId k (enqueued peerId (n, commands) (.proceed id)).1
      (enqueued peerId (n, commands) (.proceed id)).2 := by
  rcases hfind : n.sessions.find? id with _ | session
  · have hnext : n.next (.proceed id) = (n, []) := by rw [next, hfind]
    exact hsynced.of_stays hnext
  have hid : session.id = id := Table.key_of_find? hfind
  have hproceed : n.next (.proceed id) = n.proceedSession session := by rw [next, hfind]
  -- the phase of the session changes, and what it knows with it
  have hphased : ∀ {phase : SessionPhase} {calls : List HostLink.Effect},
      n.next (.proceed id) = (n.putSession { session with phase := phase }, calls) →
        (peerId ≠ id → enqueuedTo peerId calls = []) →
        (peerId = id → Knows k session.phase (placedBy k commands none) (n.channelOf k) →
          Knows k phase (placedBy k (commands ++ enqueuedTo peerId calls) none) (n.channelOf k)) →
        Synced peerId k (enqueued peerId (n, commands) (.proceed id)).1
          (enqueued peerId (n, commands) (.proceed id)).2 := by
    intro phase calls hnext hothers hknows
    refine hsynced.of_next hnext hsynced.sound hsynced.queue fun s' hs' hreg' => ?_
    rw [find?_putSession] at hs'
    split at hs'
    · rename_i hself
      have hself : peerId = id := hself.trans hid
      cases hs'
      rw [← hself] at hfind
      rw [if_pos (mem_peers.mpr ⟨session, hfind, hreg'⟩)]
      exact hknows hself (hsynced.knows session hfind hreg')
    · rename_i hother
      rw [if_pos (mem_peers.mpr ⟨s', hs', hreg'⟩), hothers fun heq => hother (heq.trans hid.symm),
        List.append_nil]
      exact hsynced.knows s' hs' hreg'
  rcases n.proceedSession_cases session with ⟨c, pending, hphase, hnext⟩ |
    ⟨line, lines, hphase, hearly, hnext⟩ | ⟨hphase, hearly, hnext⟩ | hnext
  · have hcopy :
        enqueuedTo peerId [.enqueue session.id c] = if session.id = peerId then [c] else [] := by
      by_cases hself : session.id = peerId
      · simp [enqueuedTo, hself]
      · simp [enqueuedTo, hself]
    refine hphased (hproceed.trans hnext) (fun hne => ?_) fun hself hknows => ?_
    · rw [hcopy, if_neg fun heq => hne (heq.symm.trans hid)]
    · rw [hphase] at hknows
      rw [hcopy, if_pos (hid.trans hself.symm), placedBy_append]
      exact hknows
  · obtain ⟨hhub, hsessions, hqueue⟩ :=
      (n.putSession { session with earlyContent := lines }).submitContent_cases session.id line
    refine hsynced.of_quiet (hproceed.trans hnext) hhub (fun e he => hsynced.queue e (hqueue e he))
      (fun s' hs' hreg' => ?_) (by rintro _ ⟨⟩)
    rw [hsessions] at hs'
    exact kept_putSession (s := { session with earlyContent := lines }) hfind rfl rfl rfl s' hs'
      hreg'
  · refine hphased (hproceed.trans hnext) (fun _ => rfl) fun _ hknows => ?_
    rw [hphase] at hknows
    have hnothing : commands ++ enqueuedTo peerId [] = commands := List.append_nil _
    rw [hnothing]
    exact hknows
  · exact hsynced.of_stays (hproceed.trans hnext)

/-- **A session reads a line**: when it is registered its peer knows nothing yet. From then on
everything the loop passes on is enqueued to it. -/
theorem Synced.readLine (hsynced : Synced peerId k n commands) {label : Label}
    {now : DateTimeOffset} {id line : Text} {old s : PeerSession}
    (hold : n.sessions.find? id = some old) (hid : s.id = old.id)
    (hregistered : s.registered = old.registered) (hphase : s.phase = old.phase)
    (hs : SessionOrderly s) (hnext : n.next label = n.readLine now s line) :
    Synced peerId k (enqueued peerId (n, commands) label).1
      (enqueued peerId (n, commands) label).2 := by
  rcases n.readLine_cases now s line with
    ⟨fault, hthrew, hread⟩ | ⟨engine, step, hread, hcalls, hcases⟩
  · exact hsynced.of_quiet (hnext.trans hread) rfl hsynced.queue kept_endSession nofun
  have hreplies : ∀ c ∈ enqueuedTo peerId (applyPeerStep s.id step), c.places k = none :=
    places_of_applyPeerStep (HostLinkEngine.places_of_reply hread k) s.id
  rcases hcases with ⟨hdrop, hn'⟩ | ⟨hdrop, hcompleted, hn'⟩ | ⟨hdrop, hcompleted, hreg, hn'⟩ |
    ⟨hdrop, hcompleted, hreg, hn'⟩
  · exact hsynced.of_quiet (hnext.trans (Prod.ext hn' hcalls)) rfl hsynced.queue kept_endSession
      hreplies
  · -- the handshake is complete, and was not before
    have hnot : peerId = s.id → peerId ∉ n.links.peers := by
      rintro hself hpeer
      obtain ⟨s₀, hs₀, hreg⟩ := mem_peers.mp hpeer
      have hsame : id = peerId := ((Table.key_of_find? hold).symm.trans hid.symm).trans hself.symm
      rw [hsame] at hold
      cases hs₀.symm.trans hold
      have hhandshaking := (HostLinkEngine.state_of_line hs.ne_disconnected hread).2 hcompleted
      rw [hs.registered (hregistered.trans hreg)] at hhandshaking
      cases hhandshaking
    have hready : n.next label = ((n.putSession { s with
        engine := engine, registered := true, phase := .awaitingSnapshot }).enqueueWork
          (.snapshot s.id), applyPeerStep s.id step) := hnext.trans (Prod.ext hn' hcalls)
    refine hsynced.of_next hready hsynced.sound (fun e he => ?_) fun s' hs' hreg' => ?_
    · rcases List.mem_append.mp he with he | he
      · exact hsynced.queue e he
      · cases List.mem_singleton.mp he
    · have hput : (n.putSession { s with
          engine := engine, registered := true,
          phase := .awaitingSnapshot }).sessions.find? peerId = some s' := hs'
      rw [find?_putSession] at hput
      split at hput
      · rename_i hself
        cases hput
        rw [if_neg (hnot hself)]
        exact Or.inl rfl
      · rename_i hother
        rw [if_pos (mem_peers.mpr ⟨s', hput, hreg'⟩), enqueuedTo_applyPeerStep_of_ne hother,
          List.append_nil]
        exact hsynced.knows s' hput hreg'
  · obtain ⟨hhub, hsessions, hqueue⟩ :=
      (n.putSession { s with engine := engine }).submitContent_cases s.id line
    refine hsynced.of_quiet (hnext.trans (Prod.ext hn' hcalls)) hhub
      (fun e he => hsynced.queue e (hqueue e he)) (fun s' hs' hreg' => ?_) hreplies
    have hput := (congrArg (Table.find? · peerId) hsessions).symm.trans hs'
    exact kept_putSession (s := { s with engine := engine }) hold hid hregistered hphase s' hput
      hreg'
  · exact hsynced.of_quiet (hnext.trans (Prod.ext hn' hcalls)) rfl hsynced.queue
      (kept_putSession hold hid hregistered hphase) hreplies

theorem Synced.read (hsynced : Synced peerId k n commands) (now : DateTimeOffset) (id : Text) :
    Synced peerId k (enqueued peerId (n, commands) (.read now id)).1
      (enqueued peerId (n, commands) (.read now id)).2 := by
  rcases hfind : n.sessions.find? id with _ | session
  · have hnext : n.next (.read now id) = (n, []) := by rw [next, hfind]
    exact hsynced.of_stays hnext
  by_cases hwaits : session.phase = .receiving ∧ ∃ line lines, session.inbox = line :: lines
  · obtain ⟨hphase, line, lines, hinbox⟩ := hwaits
    obtain ⟨h1, h2, h3⟩ := hsynced.orderly.sessions id session hfind
    exact hsynced.readLine (s := { session with inbox := lines }) hfind rfl rfl rfl ⟨h1, h2, h3⟩
      (next_read hfind hphase hinbox)
  · have hnext : n.next (.read now id) = (n, []) := by
      rw [next, hfind]
      dsimp only
      split
      · rename_i line lines hphase hinbox
        exact absurd ⟨hphase, line, lines, hinbox⟩ hwaits
      · rfl
    exact hsynced.of_stays hnext

/-- **The timer of a session** pings its peer, or ends the session. A ping puts no user anywhere,
and a session that has ended is followed no longer. -/
theorem Synced.peerTick (hsynced : Synced peerId k n commands) (now : DateTimeOffset) (id : Text) :
    Synced peerId k (enqueued peerId (n, commands) (.peerTick now id)).1
      (enqueued peerId (n, commands) (.peerTick now id)).2 := by
  rcases hfind : n.sessions.find? id with _ | session
  · have hnext : n.next (.peerTick now id) = (n, []) := by rw [next, hfind]
    exact hsynced.of_stays hnext
  by_cases hphase : session.phase = .receiving
  · have hnext : n.next (.peerTick now id) =
        (if (session.engine.onTick now).2.dropReason.isSome then n.endSession id
          else n.putSession { session with engine := (session.engine.onTick now).1 },
          applyPeerStep id (session.engine.onTick now).2) := by
      rw [next, hfind]
      dsimp only
      rw [if_pos hphase]
      split
      · rfl
      · rfl
    have hpings : ∀ c ∈ (session.engine.onTick now).2.outboundCommands, c.places k = none := by
      intro c hc
      rw [(HostLinkEngine.onTick_pings now session.engine).2 c hc]
      rfl
    have hcalls : ∀ c ∈ enqueuedTo peerId (applyPeerStep id (session.engine.onTick now).2),
        c.places k = none := places_of_applyPeerStep hpings id
    split at hnext
    · exact hsynced.of_quiet hnext rfl hsynced.queue kept_endSession hcalls
    · exact hsynced.of_quiet hnext rfl hsynced.queue (kept_putSession hfind rfl rfl rfl) hcalls
  · have hnext : n.next (.peerTick now id) = (n, []) := by
      rw [next, hfind]
      dsimp only
      rw [if_neg hphase]
    exact hsynced.of_stays hnext

/-- The steps of the connection to the parent are for the parent. -/
theorem Synced.of_uplink (hsynced : Synced peerId k n commands) {label : Label}
    {uplink : Option HostLinkEngine} {sends : List HostCommand}
    (hnext : n.next label = ({ n with uplink := uplink }, sends.map (.uplink · true))) :
    Synced peerId k (enqueued peerId (n, commands) label).1
      (enqueued peerId (n, commands) label).2 := by
  refine hsynced.of_quiet hnext rfl hsynced.queue (fun s hs hreg => ⟨s, hs, hreg, rfl⟩)
    fun c hc => ?_
  have hnothing : enqueuedTo peerId (sends.map (HostLink.Effect.uplink · true)) = [] := by
    simp [enqueuedTo, List.filterMap_map]
  rw [hnothing] at hc
  cases hc

/-- **Every step keeps a peer with the table**, about a user who is not announced by the peer
itself. There is one lemma above for each kind of step, and this puts them together. -/
theorem Synced.step (hsynced : Synced peerId k n commands) {label : Label}
    (hsteady : n.SteadyFor label peerId k) (hother : ¬n.AnnouncedBy label peerId k) :
    Synced peerId k (enqueued peerId (n, commands) label).1
      (enqueued peerId (n, commands) label).2 := by
  cases label with
  | submit event =>
    have hnext : n.next (.submit event) = (n.enqueueWork (.event event), []) := rfl
    refine hsynced.of_quiet hnext rfl (fun e he => ?_) (fun s hs hreg => ⟨s, hs, hreg, rfl⟩) nofun
    rcases List.mem_append.mp he with he | he
    · exact hsynced.queue e he
    · cases List.mem_singleton.mp he
      exact hsteady.submits
  | drain now =>
    rcases hqueue : n.queue with _ | ⟨_ | id | ⟨c, origin⟩, queue⟩
    · have hnext : n.next (.drain now) = (n, []) := by rw [next, Node.drain, hqueue]
      exact hsynced.of_stays hnext
    · exact hsynced.drain_event hsteady hqueue
    · exact hsynced.drain_snapshot hqueue
    · exact hsynced.drain_peer hsteady hother hqueue
  | connect now =>
    rcases huplink : n.uplink with _ | e
    · have hnext : n.next (.connect now) =
          ({ n with uplink := some ((HostLinkEngine.new n.options false).startHandshake now) },
            [(HostLinkEngine.new n.options false).handshake].map (.uplink · true)) := by
        rw [next, huplink]
        rfl
      exact hsynced.of_uplink hnext
    · have hnext : n.next (.connect now) = (n, []) := by rw [next, huplink]
      exact hsynced.of_stays hnext
  | uplinkLine now line => exact hsynced.uplinkLine hsteady
  | uplinkTick now =>
    rcases huplink : n.uplink with _ | e
    · have hnext : n.next (.uplinkTick now) = (n, []) := by rw [next, huplink]
      exact hsynced.of_stays hnext
    · have happlied : HostLink.applyStep n.links now n.hub (e.onTick now).2 =
          (n.hub, .calls ((e.onTick now).2.outboundCommands.map (.uplink · true))) := by
        rw [HostLink.applyStep, (HostLinkEngine.onTick_pings now e).1, HostLink.applyEvents]
        simp [HostLink.Trace.calls, HostLink.Trace.andThen]
      have hnext : n.next (.uplinkTick now) =
          ({ n with uplink := if (e.onTick now).2.dropReason.isSome then none
              else some (e.onTick now).1 },
            (e.onTick now).2.outboundCommands.map (.uplink · true)) := by
        rw [next, huplink]
        dsimp only
        rw [happlied]
        rfl
      exact hsynced.of_uplink hnext
  | uplinkLoss =>
    have hnext : n.next .uplinkLoss = ({ n with uplink := none }, [].map (.uplink · true)) := rfl
    exact hsynced.of_uplink hnext
  | accept now lines =>
    -- the new session is not registered
    have hgreeting : ∀ c ∈ enqueuedTo peerId (applyPeerStep (peerIdOf (n.nextPeer + 1))
        ((HostLinkEngine.new n.options true).onAccepted now).2), c.places k = none :=
      places_of_applyPeerStep (fun c hc => List.not_mem_nil.elim hc) _
    refine hsynced.of_quiet rfl rfl hsynced.queue (fun s' hs' hreg' => ?_) hgreeting
    have hput := (Table.find?_put n.sessions _ peerId).symm.trans hs'
    split at hput
    · cases hput
      cases hreg'
    · exact ⟨s', hput, hreg', rfl⟩
  | arrive id line =>
    rcases hfind : n.sessions.find? id with _ | session
    · have hnext : n.next (.arrive id line) = (n, []) := by rw [next, hfind]
      exact hsynced.of_stays hnext
    · have hnext : n.next (.arrive id line) =
          (n.putSession { session with inbox := session.inbox ++ [line] }, []) := by
        rw [next, hfind]
      exact hsynced.of_quiet hnext rfl hsynced.queue (kept_putSession hfind rfl rfl rfl) nofun
  | read now id => exact hsynced.read now id
  | proceed id => exact hsynced.proceed id
  | peerTick now id => exact hsynced.peerTick now id
  | peerLoss id =>
    rcases hfind : n.sessions.find? id with _ | session
    · have hnext : n.next (.peerLoss id) = (n, []) := by rw [next, hfind]
      exact hsynced.of_stays hnext
    · by_cases hphase : session.phase = .receiving
      · have hnext : n.next (.peerLoss id) = (n.endSession id, []) := by
          rw [next, hfind]
          dsimp only
          rw [if_pos hphase]
        exact hsynced.of_quiet hnext rfl hsynced.queue kept_endSession nofun
      · have hnext : n.next (.peerLoss id) = (n, []) := by
          rw [next, hfind]
          dsimp only
          rw [if_neg hphase]
        exact hsynced.of_stays hnext

end Synced

/-- **A new peer's announcement is current.** A node is run from its start, its own name and
the callsigns of its joins being valid, and a user is followed whom the peer itself does not
announce. If every step is steady for him, then in every state where the session of the peer
has announced, a hub of another name that knew nobody and is told what was put on the queue
of the peer since it was registered shows the user on the channel our table shows. -/
theorem current_of_steady (options : HostLinkOptions) {hostName : Text}
    {store : Option ConversStore} {start : Hub} (hnew : Hub.new hostName store = .ok start)
    (hvalid : Callsigns.isValidName hostName = true) {labels : List Label} (peerId : Text)
    (k : Text × Text)
    (hother : ∀ p ∈ Run.trace (enqueued peerId) (Node.new options start, []) labels,
      ¬p.1.1.AnnouncedBy p.2 peerId k)
    (hsteady : ∀ p ∈ Run.trace (enqueued peerId) (Node.new options start, []) labels,
      p.1.1.SteadyFor p.2 peerId k) :
    Current peerId k (Run.final (enqueued peerId) (Node.new options start, []) labels) := by
  have hstart : Synced peerId k (Node.new options start) [] :=
    ⟨orderly_new options start, Hub.sound_of_new hnew hvalid,
      fun e he => absurd he List.not_mem_nil, fun s hs => by cases hs⟩
  have hsynced := (Run.invariant
    (I := fun p : Node × List HostCommand => Synced peerId k p.1 p.2) hstart labels
      fun p hp hsynced => hsynced.step (hsteady p hp) (hother p hp)).2
  generalize Run.final (enqueued peerId) (Node.new options start, []) labels = last at hsynced ⊢
  intro s hs hreg hphase now viewer hviewer
  have hknows := hsynced.knows s hs hreg
  rw [hphase] at hknows
  have hseen := congrArg (Option.map Prod.fst) (Hub.shows_view now viewer last.2 k)
  rw [if_neg hviewer, HostCommand.map_fst_toldBy] at hseen
  have hchannels : ∀ h : Hub,
      (h.users.find? k).map NetworkUser.channel = (h.shows k).map Prod.fst := by
    intro h
    rw [Hub.shows, Option.map_map]
    rfl
  rw [hchannels, hchannels]
  exact hseen.trans hknows

section Decidable

variable (peerId : Text) (k : Text × Text) (n : Node) (label : Label)

instance : (phase : SessionPhase) → Decidable (Pends k phase)
  | .announcing commands =>
    inferInstanceAs (Decidable (∃ c ∈ commands, (c.places k).isSome = true))
  | .awaitingSnapshot | .receiving => inferInstanceAs (Decidable False)

instance : Decidable (n.AnnouncedBy label peerId k) :=
  inferInstanceAs (Decidable (∃ p ∈ n.handled label, _))

instance : Decidable (n.Moves label k) := inferInstanceAs (Decidable (_ ≠ _))

instance : (label : Label) → Decidable (n.IsEarly label)
  | .uplinkLine .. =>
    inferInstanceAs (Decidable (∃ engine ∈ n.uplink, engine.state ≠ .established))
  | .submit _ | .drain _ | .connect _ | .uplinkTick _ | .uplinkLoss | .accept .. | .arrive ..
  | .read .. | .proceed _ | .peerTick .. | .peerLoss _ => inferInstanceAs (Decidable False)

instance : Decidable (n.Risks label peerId k) :=
  inferInstanceAs (Decidable ((∃ s ∈ n.sessions.find? peerId, Pends k s.phase) ∨ _ ∨ _))

instance : (label : Label) → Decidable (Submits label)
  | .submit event => inferInstanceAs (Decidable (event.isLocal = true ∧ event.isNamed = true))
  | .drain _ | .connect _ | .uplinkLine .. | .uplinkTick _ | .uplinkLoss | .accept .. | .arrive ..
  | .read .. | .proceed _ | .peerTick .. | .peerLoss _ => inferInstanceAs (Decidable True)

instance : Decidable (n.SteadyFor label peerId k) :=
  decidable_of_iff (Submits label ∧
    (peerId ∈ n.links.peers → ∀ e ∈ n.advances label, n.hub.Tracks e k) ∧
      (peerId ∈ n.links.peers → n.Risks label peerId k → ¬n.Moves label k))
    ⟨fun ⟨h1, h2, h3⟩ => ⟨h1, h2, h3⟩, fun ⟨h1, h2, h3⟩ => ⟨h1, h2, h3⟩⟩

end Decidable

/-- A user joins, a peer comes and takes the snapshot, another user joins before the
announcement, and the first one switches his channel after it. -/
def exampleArrival : List Label :=
  [.submit (.localJoin "rf-1".toList "m0abc".toList 7), .drain Hub.exampleMoment,
    .accept Hub.exampleMoment ["/..HOST FAR saupp1.62a Aadmnp".toList],
    .read Hub.exampleMoment (peerIdOf 1), .drain Hub.exampleMoment,
    .submit (.localJoin "rf-2".toList "g7def".toList 7), .drain Hub.exampleMoment,
    .proceed (peerIdOf 1), .proceed (peerIdOf 1),
    .submit (.localSwitchChannel "rf-1".toList 8), .drain Hub.exampleMoment]

/-- What the peer was sent of the first user is where he is: the snapshot first, and then the
switch. -/
theorem current_exampleArrival :
    Current (peerIdOf 1) ("M0ABC".toList, "NODE".toList)
      (Run.final (enqueued (peerIdOf 1)) (exampleStart, []) exampleArrival) := by
  refine current_of_steady _ (@Hub.new_none "NODE".toList rfl) ?_ _ _ ?_ ?_
  · decide
  · decide +kernel
  · decide +kernel

/-- A user joins, a peer comes and takes the snapshot, and the user leaves before the
announcement. -/
def exampleRace : List Label :=
  [.submit (.localJoin "rf-1".toList "m0abc".toList 7), .drain Hub.exampleMoment,
    .accept Hub.exampleMoment ["/..HOST FAR saupp1.62a Aadmnp".toList],
    .read Hub.exampleMoment (peerIdOf 1), .drain Hub.exampleMoment,
    .submit (.localLeave "rf-1".toList "bye".toList), .drain Hub.exampleMoment,
    .proceed (peerIdOf 1), .proceed (peerIdOf 1)]

/-- **The sign-off is overtaken by the stale join**: everything is done, and the peer knows a
user who is gone. -/
theorem not_current_exampleRace :
    (∀ p ∈ Run.trace (enqueued (peerIdOf 1)) (exampleStart, []) exampleRace,
      ¬p.1.1.AnnouncedBy p.2 (peerIdOf 1) ("M0ABC".toList, "NODE".toList)) ∧
      (Run.final (enqueued (peerIdOf 1)) (exampleStart, []) exampleRace).1.queue = [] ∧
        ¬Current (peerIdOf 1) ("M0ABC".toList, "NODE".toList)
          (Run.final (enqueued (peerIdOf 1)) (exampleStart, []) exampleRace) := by
  refine ⟨by decide +kernel, by decide +kernel, fun hcurrent => ?_⟩
  have hannounced : ∃ s ∈ (Run.final (enqueued (peerIdOf 1)) (exampleStart, [])
      exampleRace).1.sessions.find? (peerIdOf 1), s.registered = true ∧ s.phase = .receiving := by
    decide +kernel
  obtain ⟨s, hs, hreg, hphase⟩ := hannounced
  have hsame := hcurrent s hs hreg hphase Hub.exampleMoment "FAR".toList (by decide)
  have hdiffers : ((Hub.view Hub.exampleMoment "FAR".toList (Run.final (enqueued (peerIdOf 1))
      (exampleStart, []) exampleRace).2).users.find? ("M0ABC".toList, "NODE".toList)).map
        NetworkUser.channel ≠ ((Run.final (enqueued (peerIdOf 1)) (exampleStart, [])
          exampleRace).1.hub.users.find? ("M0ABC".toList, "NODE".toList)).map
            NetworkUser.channel := by
    decide +kernel
  exact hdiffers hsame

end Node

end Convers
