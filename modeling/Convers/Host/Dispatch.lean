import Convers.Core.HubAnswer
import Convers.Host.HostBridge

/-!
# Carrying out an answer

The host link drives the hub on one loop and carries out what it answers: a delivery
goes to the local sink, a command to the uplink and to every downstream peer, and
the observer of local events is told last. `Convers.HostLink.Trace` is the record of
the calls the loop makes, in order, with how the send on the uplink ended: it is
the one call here that can fail, and it ends whatever was to follow.

`Convers.HostLink.Complete` is what a local event promises whatever the uplink does.
It is kept exactly when the send succeeds or has nothing behind it
(`Convers.HostLink.complete_drainLocalEvent_iff`): the uplink comes first in the
order of the source, and the rest of the answer comes after it.
-/

namespace Convers

namespace HostLink

/-- A call the loop makes. -/
inductive Effect where
  /-- `SendLineAsync` on the uplink, and whether it succeeded. -/
  | uplink (command : HostCommand) (succeeded : Bool)
  /-- `IPeerSink.Enqueue` of a registered peer. -/
  | enqueue (peerId : Text) (command : HostCommand)
  /-- `ILocalDelivery.Deliver`. -/
  | deliver (action : ConversAction)
  /-- `IInboundObserver.OnInbound`. -/
  | onInbound (event : ConversEvent)
  /-- `ILocalEventObserver.OnLocal`. -/
  | onLocal (event : ConversEvent) (fromCall : Text) (channel : Int32)
      (actions : List ConversAction)
  deriving DecidableEq

/-- The calls made so far, and whether an exception has ended them. -/
structure Trace where
  /-- The calls, in order. -/
  effects : List Effect
  /-- An exception is on its way out. -/
  threw : Bool
  deriving DecidableEq

namespace Trace

/-- Calls that return. -/
def calls (effects : List Effect) : Trace := ⟨effects, false⟩

/-- One thing after another: nothing follows an exception. -/
def andThen (s t : Trace) : Trace := if s.threw then s else ⟨s.effects ++ t.effects, t.threw⟩

@[simp] theorem calls_andThen (l : List Effect) (t : Trace) :
    (calls l).andThen t = ⟨l ++ t.effects, t.threw⟩ := rfl

@[simp] theorem effects_calls (l : List Effect) : (calls l).effects = l := rfl

@[simp] theorem threw_calls (l : List Effect) : (calls l).threw = false := rfl

/-- The calls of one thing after another. -/
theorem effects_andThen (s t : Trace) :
    (s.andThen t).effects = s.effects ++ if s.threw then [] else t.effects := by
  rcases hs : s.threw with _ | _
  · simp [andThen, hs]
  · simp [andThen, hs]

theorem andThen_assoc (s t u : Trace) : (s.andThen t).andThen u = s.andThen (t.andThen u) := by
  rcases hs : s.threw with _ | _
  · rcases ht : t.threw with _ | _
    · simp [andThen, hs, ht]
    · simp [andThen, hs, ht]
  · simp [andThen, hs]

theorem threw_andThen (s t : Trace) : (s.andThen t).threw = (s.threw || t.threw) := by
  rw [andThen]
  split
  · rename_i h
    rw [h, Bool.true_or]
  · rename_i h
    rw [Bool.eq_false_iff.mpr h, Bool.false_or]

end Trace

/-- `UplinkPeerId`. -/
def uplinkPeerId : Text := "uplink".toList

/-- Where a command can go: whether there is an uplink, and the registered peers. -/
structure Links where
  /-- Whether the link is not null. -/
  uplink : Bool
  /-- The keys of `_peers`. -/
  peers : List Text
  /-- A peer id is registered once. -/
  nodup : peers.Nodup
  deriving DecidableEq

/-- `SendCommandAsync`. -/
def sendCommand (succeeds : Bool) (command : HostCommand) : Trace :=
  ⟨[.uplink command succeeds], !succeeds⟩

/-- Whether a command goes to the uplink: there is one, and it is not where it came from. -/
def Links.reachesUplink (links : Links) (exceptPeerId : Option Text) : Bool :=
  links.uplink && exceptPeerId ≠ some uplinkPeerId

/-- `FanOutToPeersAsync`. -/
def fanOutToPeers (links : Links) (succeeds : Bool) (exceptPeerId : Option Text)
    (includeUplink : Bool) (command : HostCommand) : Trace :=
  (if includeUplink && links.reachesUplink exceptPeerId then sendCommand succeeds command
    else .calls []).andThen
    (.calls ((links.peers.filter fun peer => some peer ≠ exceptPeerId).map (.enqueue · command)))

/-- `DispatchActionsAsync`; `succeeds` tells how the sends on the uplink end, one after
another. -/
def dispatchActions (links : Links) (exceptPeerId : Option Text) :
    (ℕ → Bool) → List ConversAction → Trace
  | _, [] => .calls []
  -- the engine has dropped the link by itself
  | succeeds, .dropUplink _ :: actions => dispatchActions links exceptPeerId succeeds actions
  | succeeds, action :: actions =>
    match HostBridge.toHostCommand action with
    | some command =>
      let sent := if links.reachesUplink exceptPeerId then sendCommand (succeeds 0) command
        else .calls []
      -- a pong answers the uplink and nobody else
      let relayed := match action with
        | .sendPong _ => .calls []
        | _ => fanOutToPeers links true exceptPeerId false command
      let succeeds :=
        if links.reachesUplink exceptPeerId then fun n => succeeds (n + 1) else succeeds
      (sent.andThen relayed).andThen (dispatchActions links exceptPeerId succeeds actions)
    | none =>
      (Trace.calls [.deliver action]).andThen
        (dispatchActions links exceptPeerId succeeds actions)

/-- `ChatLogWriter.IsLoggableLocal`: the events the chat log keeps. -/
def isLoggableLocal : ConversEvent → Bool
  | .localSay .. | .localPrivateMessage .. | .localJoin .. => true
  | .localSwitchChannel .. | .localLeave .. | .localSetAway .. => true
  | _ => false

/-- `ResolveLocalIdentity`: the callsign and the channel of the speaker, when the
observer wants the event and they can be told. -/
def resolveLocalIdentity (isLoggable : ConversEvent → Bool) (h : Hub) (event : ConversEvent) :
    Option (Text × Int32) :=
  if !isLoggable event then none
  else
    let ofSession := fun sessionId =>
      (h.sessions.find? sessionId).map fun session => (session.callsign, session.channel)
    match event with
    | .localJoin _ callsign channel => some (Callsigns.normalize callsign, channel)
    | .localSay sessionId _ => ofSession sessionId
    | .localPrivateMessage sessionId _ _ => ofSession sessionId
    | .localSwitchChannel sessionId _ => ofSession sessionId
    | .localLeave sessionId _ => ofSession sessionId
    | .localSetAway sessionId _ => ofSession sessionId
    | _ => none

/-- One turn of `DrainLocalEventsAsync`, on a local event: the state it leaves and the
calls it makes. An exception is caught and logged at the end of the turn. -/
def drainLocalEvent (links : Links) (isLoggable : ConversEvent → Bool) (succeeds : ℕ → Bool)
    (now : DateTimeOffset) (h : Hub) (event : ConversEvent) : Hub × Trace :=
  let identity := resolveLocalIdentity isLoggable h event
  let answer := h.advance now event
  match answer.fault with
  | some _ => (answer.hub, ⟨[], true⟩)
  | none =>
    let log := match identity with
      | some (call, channel) => [.onLocal event call channel answer.actions]
      | none => []
    (answer.hub, (dispatchActions links none succeeds answer.actions).andThen (.calls log))

/-! ### What a dispatch does -/

/-- **Deliveries are delivered**, and cannot fail. Only what comes behind them can stop the
dispatch. -/
theorem dispatchActions_append (links : Links) (exceptPeerId : Option Text) (succeeds : ℕ → Bool)
    {before : List ConversAction} (hbefore : Hub.Deliveries before)
    (actions : List ConversAction) :
    dispatchActions links exceptPeerId succeeds (before ++ actions) =
      (Trace.calls (before.map .deliver)).andThen
        (dispatchActions links exceptPeerId succeeds actions) := by
  induction before with
  | nil => rfl
  | cons a before ih =>
    have ha := hbefore a (by simp)
    have hrest : Hub.Deliveries before := fun b hb => hbefore b (by simp [hb])
    have hcons : dispatchActions links exceptPeerId succeeds (a :: (before ++ actions)) =
        (Trace.calls [.deliver a]).andThen
          (dispatchActions links exceptPeerId succeeds (before ++ actions)) := by
      cases a <;> first | rfl | cases ha
    rw [List.cons_append, hcons, ih hrest, ← Trace.andThen_assoc]
    rfl

theorem dispatchActions_deliveries (links : Links) (exceptPeerId : Option Text)
    (succeeds : ℕ → Bool) {actions : List ConversAction} (h : Hub.Deliveries actions) :
    dispatchActions links exceptPeerId succeeds actions = .calls (actions.map .deliver) := by
  have happ := dispatchActions_append links exceptPeerId succeeds h []
  rw [List.append_nil] at happ
  rw [happ, dispatchActions, Trace.calls_andThen]
  simp [Trace.calls]

/-- **Content goes to the uplink first**: a failure there is the end of the dispatch, and otherwise
the peers follow. The order of the two is what the promise of an event depends on. -/
theorem dispatchActions_cons (links : Links) (exceptPeerId : Option Text) (succeeds : ℕ → Bool)
    {send : ConversAction} (hsend : send.isContent = true) {command : HostCommand}
    (hcommand : HostBridge.toHostCommand send = some command) (actions : List ConversAction) :
    dispatchActions links exceptPeerId succeeds (send :: actions) =
      ((if links.reachesUplink exceptPeerId then sendCommand (succeeds 0) command
        else .calls []).andThen (fanOutToPeers links true exceptPeerId false command)).andThen
      (dispatchActions links exceptPeerId
        (if links.reachesUplink exceptPeerId then fun n => succeeds (n + 1) else succeeds)
        actions) := by
  cases send <;> first | cases hsend; done | skip
  all_goals
    cases hcommand
    rfl

/-- The copies for the peers. -/
theorem fanOutToPeers_none (links : Links) (command : HostCommand) :
    fanOutToPeers links true none false command =
      .calls (links.peers.map (.enqueue · command)) := by
  simp [fanOutToPeers, Trace.andThen, Trace.calls]

/-! ### What a local event promises -/

/-- The actions delivered by some calls. -/
def delivered (effects : List Effect) : List ConversAction :=
  effects.filterMap fun
    | .deliver action => some action
    | _ => none

/-- The commands enqueued to a peer. -/
def enqueuedTo (peer : Text) (effects : List Effect) : List HostCommand :=
  effects.filterMap fun
    | .enqueue peerId command => if peerId = peer then some command else none
    | _ => none

/-- The commands put to the uplink, sent or lost. -/
def attempted (effects : List Effect) : List HostCommand :=
  effects.filterMap fun
    | .uplink command _ => some command
    | _ => none

/-- What the local observer is told. -/
def observed (effects : List Effect) : List Effect :=
  effects.filter fun
    | .onLocal .. => true
    | _ => false

/-- The commands for the peers among some actions: every send but the pong. -/
def contentOf (actions : List ConversAction) : List HostCommand :=
  (actions.filter ConversAction.isContent).filterMap HostBridge.toHostCommand

/-- **What a local event promises**: its answer is delivered here, passed to every peer
and put to the uplink, each action once, and the observer is told once. -/
structure Complete (links : Links) (isLoggable : ConversEvent → Bool) (now : DateTimeOffset)
    (h : Hub) (event : ConversEvent) (effects : List Effect) : Prop where
  /-- Every delivery is made, once. -/
  delivered : List.Perm (delivered effects)
    ((h.advance now event).actions.filter ConversAction.isDeliver)
  /-- Every peer gets every command, once. -/
  enqueued : ∀ peer ∈ links.peers,
    List.Perm (enqueuedTo peer effects) (contentOf (h.advance now event).actions)
  /-- A failure on the uplink concerns the copies for the uplink. -/
  attempted : List.Perm (attempted effects)
    (if links.uplink then contentOf (h.advance now event).actions else [])
  /-- The observer is told once of an event it wants. -/
  observed : observed effects =
    ((resolveLocalIdentity isLoggable h event).map fun (call, channel) =>
      Effect.onLocal event call channel (h.advance now event).actions).toList

section Projections

variable (l m : List Effect) (actions : List ConversAction) (peer : Text) (peers : List Text)
  (command : HostCommand) (succeeded : Bool)

@[simp] theorem delivered_append :
    HostLink.delivered (l ++ m) = HostLink.delivered l ++ HostLink.delivered m :=
  List.filterMap_append

@[simp] theorem enqueuedTo_append :
    enqueuedTo peer (l ++ m) = enqueuedTo peer l ++ enqueuedTo peer m := List.filterMap_append

@[simp] theorem attempted_append :
    HostLink.attempted (l ++ m) = HostLink.attempted l ++ HostLink.attempted m :=
  List.filterMap_append

@[simp] theorem observed_append :
    HostLink.observed (l ++ m) = HostLink.observed l ++ HostLink.observed m :=
  List.filter_append l m

@[simp] theorem delivered_deliver : HostLink.delivered (actions.map .deliver) = actions := by
  simp [HostLink.delivered, List.filterMap_map]

@[simp] theorem enqueuedTo_deliver : enqueuedTo peer (actions.map .deliver) = [] := by
  simp [enqueuedTo, List.filterMap_map]

@[simp] theorem attempted_deliver : HostLink.attempted (actions.map .deliver) = [] := by
  simp [HostLink.attempted, List.filterMap_map]

@[simp] theorem observed_deliver : HostLink.observed (actions.map .deliver) = [] := by
  simp [HostLink.observed, List.filter_map, Function.comp_def]

@[simp] theorem delivered_enqueue : HostLink.delivered (peers.map (.enqueue · command)) = [] := by
  simp [HostLink.delivered, List.filterMap_map]

@[simp] theorem attempted_enqueue : HostLink.attempted (peers.map (.enqueue · command)) = [] := by
  simp [HostLink.attempted, List.filterMap_map]

@[simp] theorem observed_enqueue : HostLink.observed (peers.map (.enqueue · command)) = [] := by
  simp [HostLink.observed, List.filter_map, Function.comp_def]

/-- A fan-out passes a command to a registered peer once. -/
theorem enqueuedTo_enqueue (hnodup : peers.Nodup) :
    enqueuedTo peer (peers.map (.enqueue · command)) = if peer ∈ peers then [command] else [] := by
  induction peers with
  | nil => rfl
  | cons p peers ih =>
    obtain ⟨hp, hrest⟩ := List.nodup_cons.mp hnodup
    have hcons : enqueuedTo peer ((p :: peers).map (.enqueue · command)) =
        (if p = peer then [command] else []) ++
          enqueuedTo peer (peers.map (.enqueue · command)) := by
      simp only [enqueuedTo, List.map_cons, List.filterMap_cons]
      by_cases h : p = peer
      · simp [h]
      · simp [h]
    rw [hcons, ih hrest]
    by_cases h : p = peer
    · subst h
      simp [hp]
    · simp [h, Ne.symm h]

end Projections

section Quiet

variable (links : Links) (exceptPeerId : Option Text)

/-- Two things that write nothing to a peer write nothing one after another. -/
theorem enqueuedTo_andThen {peer : Text} {s t : Trace} (hs : enqueuedTo peer s.effects = [])
    (ht : enqueuedTo peer t.effects = []) : enqueuedTo peer (s.andThen t).effects = [] := by
  rw [Trace.effects_andThen, enqueuedTo_append, hs]
  split
  · rfl
  · exact ht

/-- Two things that write nothing to the uplink write nothing one after another. -/
theorem attempted_andThen {s t : Trace} (hs : attempted s.effects = [])
    (ht : attempted t.effects = []) : attempted (s.andThen t).effects = [] := by
  rw [Trace.effects_andThen, attempted_append, hs]
  split
  · rfl
  · exact ht

/-- **An answer without content writes nothing to the peers**: a pong is for the uplink alone. The
events of the network are of that kind. -/
theorem enqueuedTo_dispatchActions (succeeds : ℕ → Bool) {actions : List ConversAction}
    (h : ∀ a ∈ actions, a.isContent = false) (peer : Text) :
    enqueuedTo peer (dispatchActions links exceptPeerId succeeds actions).effects = [] := by
  induction actions generalizing succeeds with
  | nil => rfl
  | cons a actions ih =>
    have ha := h a (by simp)
    have hrest := fun succeeds => ih succeeds fun b hb => h b (List.mem_cons_of_mem _ hb)
    cases a with
    | sendPong millisecondsOrSentinel =>
      refine enqueuedTo_andThen (enqueuedTo_andThen ?_ rfl) (hrest _)
      split
      · rfl
      · rfl
    | dropUplink reason => exact hrest succeeds
    | _ =>
      first
        | cases ha; done
        | exact hrest succeeds

/-- **An answer without sends writes nothing to the uplink.** A refusal so leaves the link of the
parent alone. -/
theorem attempted_dispatchActions (succeeds : ℕ → Bool) {actions : List ConversAction}
    (h : ∀ a ∈ actions, a.isSend = false) :
    attempted (dispatchActions links exceptPeerId succeeds actions).effects = [] := by
  induction actions generalizing succeeds with
  | nil => rfl
  | cons a actions ih =>
    have ha := h a (by simp)
    have hrest := ih succeeds fun b hb => h b (List.mem_cons_of_mem _ hb)
    cases a with
    | dropUplink reason => exact hrest
    | _ =>
      first
        | cases ha; done
        | exact hrest

end Quiet

/-- Deliveries are no commands for the peers. -/
theorem contentOf_eq_nil {actions : List ConversAction} (h : Hub.Deliveries actions) :
    contentOf actions = [] := by
  have hfilter : actions.filter ConversAction.isContent = [] := by
    refine List.filter_eq_nil_iff.mpr fun a ha => ?_
    rw [ConversAction.isContent_of_isDeliver (h a ha)]
    exact Bool.false_ne_true
  rw [contentOf, hfilter, List.filterMap_nil]

/-- Deliveries are all delivered. -/
theorem filter_isDeliver_eq_self {actions : List ConversAction} (h : Hub.Deliveries actions) :
    actions.filter ConversAction.isDeliver = actions := List.filter_eq_self.mpr h

/-- The last call of a turn. -/
def logOf (isLoggable : ConversEvent → Bool) (now : DateTimeOffset) (h : Hub)
    (event : ConversEvent) : List Effect :=
  ((resolveLocalIdentity isLoggable h event).map fun (call, channel) =>
    Effect.onLocal event call channel (h.advance now event).actions).toList

section Log

variable (isLoggable : ConversEvent → Bool) (now : DateTimeOffset) (h : Hub) (event : ConversEvent)

@[simp] theorem delivered_logOf : HostLink.delivered (logOf isLoggable now h event) = [] := by
  rcases hid : resolveLocalIdentity isLoggable h event with _ | ⟨call, channel⟩
  · simp [logOf, hid, HostLink.delivered]
  · simp [logOf, hid, HostLink.delivered]

@[simp] theorem enqueuedTo_logOf (peer : Text) :
    enqueuedTo peer (logOf isLoggable now h event) = [] := by
  rcases hid : resolveLocalIdentity isLoggable h event with _ | ⟨call, channel⟩
  · simp [logOf, hid, enqueuedTo]
  · simp [logOf, hid, enqueuedTo]

@[simp] theorem attempted_logOf : HostLink.attempted (logOf isLoggable now h event) = [] := by
  rcases hid : resolveLocalIdentity isLoggable h event with _ | ⟨call, channel⟩
  · simp [logOf, hid, HostLink.attempted]
  · simp [logOf, hid, HostLink.attempted]

@[simp] theorem observed_logOf :
    HostLink.observed (logOf isLoggable now h event) = logOf isLoggable now h event := by
  rcases hid : resolveLocalIdentity isLoggable h event with _ | ⟨call, channel⟩
  · simp [logOf, hid, HostLink.observed]
  · simp [logOf, hid, HostLink.observed]

end Log

variable (links : Links) (isLoggable : ConversEvent → Bool) (succeeds : ℕ → Bool)
  (now : DateTimeOffset) {h : Hub} {event : ConversEvent}

/-- A turn whose event does not fail dispatches its answer and then tells the
observer. -/
theorem drainLocalEvent_of_ok (hfault : (h.advance now event).fault = none) :
    (drainLocalEvent links isLoggable succeeds now h event).2 =
      (dispatchActions links none succeeds (h.advance now event).actions).andThen
        (.calls (logOf isLoggable now h event)) := by
  rcases hid : resolveLocalIdentity isLoggable h event with _ | ⟨call, channel⟩
  · simp only [drainLocalEvent, hfault, hid, logOf, Option.map_none, Option.toList_none]
  · simp only [drainLocalEvent, hfault, hid, logOf, Option.map_some, Option.toList_some]

/-- **An event that is not announced keeps its promise**, whatever the uplink does. There is nothing
in its answer that a failing uplink could hold back. -/
theorem complete_of_not_announces (hlocal : event.isLocal = true)
    (hann : h.announces event = false) :
    Complete links isLoggable now h event
      (drainLocalEvent links isLoggable succeeds now h event).2.effects := by
  have hdel := Hub.advance_of_not_announces now hlocal hann
  rcases hfault : (h.advance now event).fault with _ | fault
  · have heffects : (drainLocalEvent links isLoggable succeeds now h event).2.effects =
        (h.advance now event).actions.map .deliver ++ logOf isLoggable now h event := by
      rw [drainLocalEvent_of_ok links isLoggable succeeds now hfault,
        dispatchActions_deliveries links none succeeds hdel]
      rfl
    rw [heffects]
    refine ⟨?_, fun peer hpeer => ?_, ?_, ?_⟩
    · simp [filter_isDeliver_eq_self hdel]
    · simp [contentOf_eq_nil hdel]
    · simp [contentOf_eq_nil hdel]
    · simp only [observed_append, observed_deliver, observed_logOf, List.nil_append]
      rfl
  · -- nothing was answered, and the events that fail are not logged
    obtain ⟨⟨sessionId, personal, rfl⟩, -, hactions⟩ := Hub.advance_fault now hfault
    have heffects : (drainLocalEvent links isLoggable succeeds now h
        (.localSetPersonal sessionId personal)).2.effects = [] := by
      simp only [drainLocalEvent, hfault]
    have hid : resolveLocalIdentity isLoggable h (.localSetPersonal sessionId personal) = none := by
      simp [resolveLocalIdentity]
    rw [heffects]
    refine ⟨?_, fun peer hpeer => ?_, ?_, ?_⟩
    · simp [hactions, HostLink.delivered]
    · simp [hactions, enqueuedTo, contentOf]
    · simp [hactions, HostLink.attempted, contentOf]
    · simp [hid, HostLink.observed]

/-- The calls of a turn whose event is announced, when nothing fails. -/
theorem effects_of_announces {before after : List ConversAction} {send : ConversAction}
    {command : HostCommand} (hactions : (h.advance now event).actions = before ++ send :: after)
    (hbefore : Hub.Deliveries before) (hafter : Hub.Deliveries after)
    (hsend : send.isContent = true) (hcommand : HostBridge.toHostCommand send = some command)
    (hfault : (h.advance now event).fault = none)
    (hlink : links.uplink = true → succeeds 0 = true) :
    (drainLocalEvent links isLoggable succeeds now h event).2.effects =
      before.map .deliver ++ (if links.uplink then [.uplink command true] else []) ++
        links.peers.map (.enqueue · command) ++ after.map .deliver ++
        logOf isLoggable now h event := by
  rw [drainLocalEvent_of_ok links isLoggable succeeds now hfault, hactions,
    dispatchActions_append links none succeeds hbefore,
    dispatchActions_cons links none succeeds hsend hcommand, fanOutToPeers_none,
    dispatchActions_deliveries links none _ hafter]
  rcases hup : links.uplink with _ | _
  · simp [Links.reachesUplink, hup, Trace.andThen, Trace.calls]
  · simp [Links.reachesUplink, hup, hlink hup, sendCommand, Trace.andThen, Trace.calls]

/-- The calls of a turn whose event is announced, when the uplink fails. -/
theorem effects_of_failure {before after : List ConversAction} {send : ConversAction}
    {command : HostCommand} (hactions : (h.advance now event).actions = before ++ send :: after)
    (hbefore : Hub.Deliveries before) (hsend : send.isContent = true)
    (hcommand : HostBridge.toHostCommand send = some command)
    (hfault : (h.advance now event).fault = none) (hlink : links.uplink = true)
    (hfail : succeeds 0 = false) :
    (drainLocalEvent links isLoggable succeeds now h event).2.effects =
      before.map .deliver ++ [.uplink command false] := by
  rw [drainLocalEvent_of_ok links isLoggable succeeds now hfault, hactions,
    dispatchActions_append links none succeeds hbefore,
    dispatchActions_cons links none succeeds hsend hcommand]
  simp [Links.reachesUplink, hlink, hfail, sendCommand, Trace.andThen, Trace.calls]

/-- The answer to an event that is announced, with the command it sends. -/
theorem advance_of_announces (hann : h.announces event = true) :
    ∃ before send after command, h.announcement now event = some send ∧
      HostBridge.toHostCommand send = some command ∧ send.isContent = true ∧
      (h.advance now event).actions = before ++ send :: after ∧ Hub.Deliveries before ∧
      Hub.Deliveries after ∧ (after = [] ↔ h.isLastWord event = true) ∧
      (h.advance now event).fault = none := by
  obtain ⟨before, send, after, hsent, hactions, hbefore, hafter, hlast⟩ :=
    Hub.advance_of_announces now hann
  have hsend := Hub.isContent_announcement hsent
  obtain ⟨command, hcommand⟩ : ∃ command, HostBridge.toHostCommand send = some command := by
    cases send <;> first | exact ⟨_, rfl⟩ | cases hsend
  refine ⟨before, send, after, command, hsent, hcommand, hsend, hactions, hbefore, hafter,
    hlast, ?_⟩
  rcases hf : (h.advance now event).fault with _ | fault
  · rfl
  · rw [(Hub.advance_fault now hf).2.1] at hann
    cases hann

section Announced

variable {before after : List ConversAction} {send : ConversAction} {command : HostCommand}
  (hsend : send.isContent = true) (hbefore : Hub.Deliveries before) (hafter : Hub.Deliveries after)

include hsend hbefore hafter

/-- The one command of an answer. -/
theorem contentOf_announced (hcommand : HostBridge.toHostCommand send = some command) :
    contentOf (before ++ send :: after) = [command] := by
  have hb := contentOf_eq_nil hbefore
  have ha := contentOf_eq_nil hafter
  simp only [contentOf] at hb ha ⊢
  rw [List.filter_append, List.filterMap_append, hb, List.filter_cons_of_pos hsend,
    List.filterMap_cons_some hcommand, ha, List.nil_append]

/-- The deliveries of an answer. -/
theorem filter_isDeliver_announced :
    (before ++ send :: after).filter ConversAction.isDeliver = before ++ after := by
  rw [List.filter_append,
    List.filter_cons_of_neg (by simp [ConversAction.isDeliver_of_isContent hsend]),
    filter_isDeliver_eq_self hbefore, filter_isDeliver_eq_self hafter]

end Announced

/-- **An event that is announced keeps its promise** when the uplink does not fail. Behind the send
everything else of the answer is done, and then the log is written. -/
theorem complete_of_announces (hann : h.announces event = true)
    (hlink : links.uplink = true → succeeds 0 = true) :
    Complete links isLoggable now h event
      (drainLocalEvent links isLoggable succeeds now h event).2.effects := by
  obtain ⟨before, send, after, command, -, hcommand, hsend, hactions, hbefore, hafter, -, hfault⟩ :=
    advance_of_announces now hann
  have hdelivered := filter_isDeliver_announced hsend hbefore hafter
  have hcontent := contentOf_announced hsend hbefore hafter hcommand
  rw [← hactions] at hdelivered hcontent
  rw [effects_of_announces links isLoggable succeeds now hactions hbefore hafter hsend hcommand
    hfault hlink]
  have hup : ∀ l : List Effect, l = (if links.uplink then [.uplink command true] else []) →
      HostLink.delivered l = [] ∧ (∀ peer, enqueuedTo peer l = []) ∧ HostLink.observed l = [] ∧
        HostLink.attempted l = if links.uplink then [command] else [] := by
    rintro l rfl
    rcases links.uplink with _ | _
    · exact ⟨rfl, fun _ => rfl, rfl, rfl⟩
    · exact ⟨rfl, fun _ => rfl, rfl, rfl⟩
  obtain ⟨hd, hq, ho, ha⟩ := hup _ rfl
  refine ⟨?_, fun peer hpeer => ?_, ?_, ?_⟩
  · simp [hd, hdelivered]
  · simp [hq, hcontent, enqueuedTo_enqueue peer links.peers command links.nodup, hpeer]
  · simp [ha, hcontent]
  · simp only [observed_append, observed_deliver, observed_enqueue, observed_logOf, ho,
      List.nil_append]
    rfl

/-- **A local event keeps its promise** when the uplink does not fail. It puts the two cases
together, by whether there is something to announce. -/
theorem complete_of_succeeds (hlocal : event.isLocal = true)
    (hlink : links.uplink = true → succeeds 0 = true) :
    Complete links isLoggable now h event
      (drainLocalEvent links isLoggable succeeds now h event).2.effects := by
  rcases hann : h.announces event with _ | _
  · exact complete_of_not_announces links isLoggable succeeds now hlocal hann
  · exact complete_of_announces links isLoggable succeeds now hann hlink

/-- **A local event keeps its promise iff the send on the uplink succeeds or has nothing
behind it**: no peer, nothing to log and nothing to deliver. -/
theorem complete_drainLocalEvent_iff (hlocal : event.isLocal = true) :
    Complete links isLoggable now h event
        (drainLocalEvent links isLoggable succeeds now h event).2.effects ↔
      (links.uplink = true → succeeds 0 = false → h.announces event = true →
        links.peers = [] ∧ resolveLocalIdentity isLoggable h event = none ∧
          h.isLastWord event = true) := by
  by_cases hann : h.announces event = true
  swap
  · rw [Bool.not_eq_true] at hann
    exact iff_of_true (complete_of_not_announces links isLoggable succeeds now hlocal hann)
      (by simp [hann])
  by_cases hlink : links.uplink = true → succeeds 0 = true
  · exact iff_of_true (complete_of_announces links isLoggable succeeds now hann hlink)
      fun hup hfail _ => absurd (hlink hup) (by simp [hfail])
  obtain ⟨before, send, after, command, -, hcommand, hsend, hactions, hbefore, hafter, hlast,
    hfault⟩ := advance_of_announces now hann
  have hdelivered := filter_isDeliver_announced hsend hbefore hafter
  have hcontent := contentOf_announced hsend hbefore hafter hcommand
  rw [← hactions] at hdelivered hcontent
  obtain ⟨hup, hfail⟩ : links.uplink = true ∧ succeeds 0 = false := by simpa using hlink
  rw [effects_of_failure links isLoggable succeeds now hactions hbefore hsend hcommand hfault
    hup hfail]
  constructor
  · intro hcomplete _ _ _
    obtain ⟨hd, hq, -, ho⟩ := hcomplete
    refine ⟨List.eq_nil_iff_forall_not_mem.mpr fun peer hpeer => ?_, ?_, hlast.mp ?_⟩
    · have hlength := (hq peer hpeer).length_eq
      rw [enqueuedTo_append, enqueuedTo_deliver, hcontent] at hlength
      cases hlength
    · rcases hid : resolveLocalIdentity isLoggable h event with _ | ⟨call, channel⟩
      · rfl
      · rw [observed_append, observed_deliver, hid] at ho
        cases ho
    · have hlength := hd.length_eq
      rw [delivered_append, delivered_deliver, hdelivered, List.length_append,
        List.length_append] at hlength
      exact List.length_eq_zero_iff.mp (Nat.add_left_cancel hlength).symm
  · intro hnothing
    obtain ⟨hpeers, hid, hword⟩ := hnothing hup hfail hann
    obtain rfl := hlast.mpr hword
    refine ⟨?_, fun peer hpeer => ?_, ?_, ?_⟩
    · rw [delivered_append, delivered_deliver, hdelivered]
      exact List.Perm.refl _
    · rw [hpeers] at hpeer
      cases hpeer
    · rw [attempted_append, attempted_deliver, hcontent, if_pos hup]
      exact List.Perm.refl _
    · rw [observed_append, observed_deliver, hid]
      rfl

/-- A node with an uplink and a peer. -/
def exampleLinks : Links := ⟨true, ["peer-1".toList], by simp⟩

/-- A node with two users on one channel. -/
def exampleHub : Hub :=
  let h := ((Hub.fresh "NODE".toList).advance ⟨0, zero_ticks_le⟩
    (.localJoin "rf-1".toList "m0abc".toList 7)).hub
  (h.advance ⟨0, zero_ticks_le⟩ (.localJoin "rf-2".toList "m0xyz".toList 7)).hub

/-- A text said while the uplink works reaches everyone. -/
theorem complete_drainLocalEvent_say :
    Complete exampleLinks isLoggableLocal ⟨0, zero_ticks_le⟩ exampleHub
      (.localSay "rf-1".toList "hello".toList)
      (drainLocalEvent exampleLinks isLoggableLocal (fun _ => true) ⟨0, zero_ticks_le⟩ exampleHub
        (.localSay "rf-1".toList "hello".toList)).2.effects :=
  (complete_drainLocalEvent_iff exampleLinks isLoggableLocal (fun _ => true) ⟨0, zero_ticks_le⟩
    rfl).mpr fun _ hfail => absurd hfail (by simp)

/-- **A text said while the uplink fails reaches nobody**: not the other user of the
channel, not the peer, and not the log. -/
theorem not_complete_drainLocalEvent_say :
    ¬Complete exampleLinks isLoggableLocal ⟨0, zero_ticks_le⟩ exampleHub
      (.localSay "rf-1".toList "hello".toList)
      (drainLocalEvent exampleLinks isLoggableLocal (fun _ => false) ⟨0, zero_ticks_le⟩ exampleHub
        (.localSay "rf-1".toList "hello".toList)).2.effects := by
  have heffects : (drainLocalEvent exampleLinks isLoggableLocal (fun _ => false) ⟨0, zero_ticks_le⟩
      exampleHub (.localSay "rf-1".toList "hello".toList)).2.effects =
        [.uplink (.hostChannelMessage "M0ABC".toList 7 "hello".toList) false] := by
    decide +kernel
  rw [heffects]
  intro hcomplete
  have hobserved := hcomplete.observed
  have hid : resolveLocalIdentity isLoggableLocal exampleHub
      (.localSay "rf-1".toList "hello".toList) = some ("M0ABC".toList, 7) := by
    decide +kernel
  rw [hid] at hobserved
  cases hobserved

end HostLink

end Convers
