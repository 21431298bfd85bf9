import Convers.Host.Dispatch
import Convers.Host.HostLinkEngine

/-!
# The uplink

What the owning loop does with a line of the uplink, with the completion of its
handshake and with a command that came in on a downstream peer. Sends succeed here:
what a failing one does is in `Convers.HostLink.complete_drainLocalEvent_iff`.

The golden rule is `Convers.PeerRelay.forwarded`: everything but the verbs of a
single link goes to every other host.
-/

namespace Convers

namespace PeerRelay

/-- The verbs that each link answers for itself. -/
def isLinkLocal : HostCommand → Bool
  | .hostHandshake .. | .hostPing | .hostPong _ | .hostLoop _ | .hostSysInfo .. => true
  | .hostRoute .. => true
  | _ => false

/-- `PeerRelay.Forwarded`. -/
def forwarded (inbound : HostCommand) : Option HostCommand :=
  if isLinkLocal inbound then none else some inbound

theorem forwarded_eq_some {c f : HostCommand} :
    forwarded c = some f ↔ isLinkLocal c = false ∧ f = c := by
  rw [forwarded]
  split
  · rename_i h
    simp [h]
  · rename_i h
    simp [h, eq_comm]

/-- The command of the network a line carries, if any. -/
def contentOf (line : Text) : Option HostCommand :=
  match HostCommandCodec.tryParse line with
  | .ok (some command) => forwarded command
  | _ => none

theorem contentOf_eq_some {line : Text} {c : HostCommand} :
    contentOf line = some c ↔
      (HostCommandCodec.stripPrefix line).map HostCommandCodec.parseBody = some c ∧
        isLinkLocal c = false := by
  rw [contentOf, HostCommandCodec.tryParse_eq]
  rcases (HostCommandCodec.stripPrefix line).map HostCommandCodec.parseBody with _ | parsed
  · simp
  · refine forwarded_eq_some.trans ?_
    constructor
    · rintro ⟨hlocal, rfl⟩
      exact ⟨rfl, hlocal⟩
    · rintro ⟨hparsed, hlocal⟩
      cases hparsed
      exact ⟨hlocal, rfl⟩

end PeerRelay

namespace HostLinkEngine

variable {now : DateTimeOffset} {e e' : HostLinkEngine} {line : Text} {step : EngineStep}

/-- A command that goes to the bridge becomes an event and nothing else. -/
theorem of_bridge {e₀ : HostLinkEngine} {c : HostCommand}
    (h : (HostBridge.toEvent c >>= fun event =>
      Except.ok (e₀, { EngineStep.none with hubEvents := event.toList })) = .ok (e', step)) :
    e' = e₀ ∧ step = { EngineStep.none with hubEvents := step.hubEvents } ∧
      ∀ event ∈ step.hubEvents, HostBridge.toEvent c = .ok (some event) := by
  rcases hto : HostBridge.toEvent c with fault | answer
  · rw [hto] at h
    cases h
  · rw [hto] at h
    cases h
    exact ⟨rfl, rfl, fun event hevent => congrArg _ (Option.mem_toList.mp hevent)⟩

/-- The hub is told of events from the hosts only. -/
theorem isLocal_of_mem_hubEvents (h : e.onLineReceived now line = .ok (e', step)) :
    ∀ event ∈ step.hubEvents, event.isLocal = false := by
  have hbridge : ∀ {e₀ : HostLinkEngine} {c : HostCommand}, (HostBridge.toEvent c >>= fun event =>
      Except.ok (e₀, { EngineStep.none with hubEvents := event.toList })) = .ok (e', step) →
        ∀ event ∈ step.hubEvents, event.isLocal = false := fun hok event hevent =>
    (HostBridge.isLocal_of_toEvent ((of_bridge hok).2.2 event hevent)).1
  rw [onLineReceived_eq] at h
  rcases hparsed : (HostCommandCodec.stripPrefix line).map HostCommandCodec.parseBody with _ | c
  · rw [hparsed] at h
    cases h
    nofun
  · rw [hparsed] at h
    rcases hstate : e.state with _ | _ | _
    · simp only [hstate] at h
      cases h
      nofun
    · simp only [hstate] at h
      cases c with
      | hostHandshake hostname software facilities =>
        cases h
        nofun
      | _ => exact hbridge h
    · simp only [hstate] at h
      cases c with
      | hostPong time | hostLoop detail =>
        cases h
        simp [ConversEvent.isLocal]
      | hostHandshake hostname software facilities | hostRoute dest user ttl
      | hostSysInfo user host =>
        cases h
        nofun
      | _ => exact hbridge h

/-- **Content changes nothing on the link**: it only becomes an event, and the event is no ping. The
relay of a line can so be looked at apart from the state of the link. -/
theorem onLineReceived_content {c : HostCommand} (hc : PeerRelay.contentOf line = some c)
    (h : e.onLineReceived now line = .ok (e', step)) :
    e' = { e with lastInbound := now } ∧
      step = { EngineStep.none with hubEvents := step.hubEvents } ∧
        ConversEvent.hostPing ∉ step.hubEvents := by
  have hbridge : ∀ {e₀ : HostLinkEngine}, c ≠ .hostPing → (HostBridge.toEvent c >>= fun event =>
      Except.ok (e₀, { EngineStep.none with hubEvents := event.toList })) = .ok (e', step) →
        e' = e₀ ∧ step = { EngineStep.none with hubEvents := step.hubEvents } ∧
          ConversEvent.hostPing ∉ step.hubEvents := by
    intro e₀ hping hok
    obtain ⟨he, hstep, hevents⟩ := of_bridge hok
    exact ⟨he, hstep, fun hmem =>
      hping ((HostBridge.isLocal_of_toEvent (hevents _ hmem)).2 rfl)⟩
  obtain ⟨hparsed, hlocal⟩ := PeerRelay.contentOf_eq_some.mp hc
  rw [onLineReceived_eq, hparsed] at h
  rcases hstate : e.state with _ | _ | _
  · simp only [hstate] at h
    cases h
    exact ⟨rfl, rfl, nofun⟩
  · simp only [hstate] at h
    cases c with
    | hostHandshake hostname software facilities | hostPing => cases hlocal
    | _ => exact hbridge nofun h
  · simp only [hstate] at h
    cases c with
    | hostHandshake hostname software facilities | hostPing => cases hlocal
    | hostPong time | hostLoop detail => cases hlocal
    | hostRoute dest user ttl | hostSysInfo user host => cases hlocal
    | _ => exact hbridge nofun h

end HostLinkEngine

namespace HostLink

/-- Every send on the uplink succeeds. -/
def allSucceed : ℕ → Bool := fun _ => true

/-- A dispatch whose sends succeed does not throw. -/
theorem threw_dispatchActions_allSucceed (links : Links) (exceptPeerId : Option Text)
    (actions : List ConversAction) :
    (dispatchActions links exceptPeerId allSucceed actions).threw = false := by
  have htail : (fun n => allSucceed (n + 1)) = allSucceed := rfl
  have hsent (command : HostCommand) : (if links.reachesUplink exceptPeerId then
      sendCommand (allSucceed 0) command else .calls []).threw = false := by
    split <;> rfl
  have hrelayed (command : HostCommand) :
      (fanOutToPeers links true exceptPeerId false command).threw = false := by
    rw [fanOutToPeers, Trace.threw_andThen]
    rfl
  induction actions with
  | nil => rfl
  | cons action actions ih =>
    by_cases hdeliver : action.isDeliver = true
    · have hone : Hub.Deliveries [action] := fun b hb => List.mem_singleton.mp hb ▸ hdeliver
      rw [← List.singleton_append, dispatchActions_append links exceptPeerId _ hone,
        Trace.threw_andThen, ih]
      rfl
    · by_cases hcontent : action.isContent = true
      · obtain ⟨command, hcommand⟩ : ∃ command, HostBridge.toHostCommand action = some command := by
          cases action <;> first | exact ⟨_, rfl⟩ | cases hcontent
        rw [dispatchActions_cons links exceptPeerId _ hcontent hcommand, htail, ite_self,
          Trace.threw_andThen, Trace.threw_andThen, hsent, hrelayed, ih]
        rfl
      · cases action with
        | dropUplink reason => exact ih
        | sendPong time =>
          rw [dispatchActions]
          · simp only [HostBridge.toHostCommand, htail, ite_self, Trace.threw_andThen, hsent, ih]
            rfl
          · rintro reason ⟨⟩
        | _ => first | exact absurd rfl hdeliver | exact absurd rfl hcontent

/-- The events of an `EngineStep`, applied one after another: each is shown to the
observer, then advances the hub, and its answer is dispatched. -/
def applyEvents (links : Links) (exceptPeerId : Option Text) (now : DateTimeOffset) :
    Hub → List ConversEvent → Hub × Trace
  | h, [] => (h, .calls [])
  | h, event :: events =>
    let answer := h.advance now event
    match answer.fault with
    | some _ => (answer.hub, ⟨[.onInbound event], true⟩)
    | none =>
      let done := (Trace.calls [.onInbound event]).andThen
        (dispatchActions links exceptPeerId allSucceed answer.actions)
      let rest := applyEvents links exceptPeerId now answer.hub events
      (rest.1, done.andThen rest.2)

/-- `ApplyStepAsync`, but for the drop. -/
def applyStep (links : Links) (now : DateTimeOffset) (h : Hub) (step : EngineStep) : Hub × Trace :=
  let sent := Trace.calls (step.outboundCommands.map (.uplink · true))
  let applied := applyEvents links none now h step.hubEvents
  (applied.1, sent.andThen applied.2)

/-- The announcement of one user: the join, the personal text and the away text. -/
def announceUser (user : NetworkUser) : List HostCommand :=
  let joined := HostBridge.toUnix user.joinedAt
  .hostUser user.name user.host joined (-1) user.channel user.personal false ::
    ((if user.personal.length ≠ 0 then [.hostUserData user.name user.host user.personal] else []) ++
      if user.away.length ≠ 0 then [.hostAway user.name user.host joined user.away] else [])

/-- `OnEstablishedAsync`: our own users are announced. -/
def onEstablished (h : Hub) : List HostCommand :=
  (h.networkUsers.filter fun user =>
    HostLinkEngine.equalsIgnoreCase user.host h.hostName).flatMap announceUser

/-- The relay of a line of the uplink: to every peer, once the link is established. -/
def relayedLine (links : Links) (engine : HostLinkEngine) (line : Text) : Trace :=
  if engine.state = .established ∧ !links.peers.isEmpty then
    match PeerRelay.contentOf line with
    | some forwarded => fanOutToPeers links true (some uplinkPeerId) false forwarded
    | none => .calls []
  else .calls []

/-- The relay of a command of a peer: to every other host. -/
def relayedCommand (links : Links) (command : HostCommand) (originPeerId : Text) : Trace :=
  match PeerRelay.forwarded command with
  | some forwarded => fanOutToPeers links true (some originPeerId) true forwarded
  | none => .calls []

/-- One turn of `RunOneConnectionAsync` on a line of the uplink: the engine that is left,
if the connection goes on, the hub, and the calls made. -/
def receiveLine (links : Links) (now : DateTimeOffset) (engine : HostLinkEngine) (h : Hub)
    (line : Text) : Option HostLinkEngine × Hub × List Effect :=
  match engine.onLineReceived now line with
  -- the exception ends the connection
  | .error _ => (none, h, [])
  | .ok (engine, step) =>
    let (h, applied) := applyStep links now h step
    let done := (relayedLine links engine line).andThen applied
    match step.dropReason with
    | some _ => (none, h, done.effects)
    | none =>
      let announced :=
        if step.handshakeCompleted then (onEstablished h).map (.uplink · true) else []
      (some engine, h, (done.andThen (.calls announced)).effects)

/-- `ApplyPeerInboundAsync`: the command goes to every other host, and then to the hub. -/
def applyPeerInbound (links : Links) (now : DateTimeOffset) (h : Hub) (command : HostCommand)
    (originPeerId : Text) : Hub × List Effect :=
  let relayed := relayedCommand links command originPeerId
  match HostBridge.toEvent command with
  | .error _ => (h, relayed.effects)
  | .ok event =>
    let applied := applyEvents links (some originPeerId) now h event.toList
    (applied.1, (relayed.andThen applied.2).effects)

section Inbound

variable (links : Links) {now : DateTimeOffset} {e engine : HostLinkEngine} (h : Hub) {line : Text}
  {step : EngineStep} {command : HostCommand} (originPeerId : Text)

/-- A line without content is not relayed. -/
theorem relayedLine_of_none (hcontent : PeerRelay.contentOf line = none) :
    relayedLine links e line = .calls [] := by
  rw [relayedLine, hcontent, ite_self]

/-- A line that drops the uplink. -/
theorem receiveLine_of_drop (hread : e.onLineReceived now line = .ok (engine, step))
    (hdrop : step.dropReason.isSome = true) :
    receiveLine links now e h line = (none, (applyStep links now h step).1,
      ((relayedLine links engine line).andThen (applyStep links now h step).2).effects) := by
  obtain ⟨reason, hreason⟩ := Option.isSome_iff_exists.mp hdrop
  rw [receiveLine, hread]
  dsimp only
  rw [hreason]

/-- A line after which the uplink goes on. -/
theorem receiveLine_of_keep (hread : e.onLineReceived now line = .ok (engine, step))
    (hdrop : step.dropReason = none) :
    receiveLine links now e h line = (some engine, (applyStep links now h step).1,
      (((relayedLine links engine line).andThen (applyStep links now h step).2).andThen
        (.calls (if step.handshakeCompleted then
          (onEstablished (applyStep links now h step).1).map (.uplink · true)
          else []))).effects) := by
  rw [receiveLine, hread]
  dsimp only
  rw [hdrop]

/-- A command whose timestamp is no moment. -/
theorem applyPeerInbound_of_error {fault : Fault}
    (hevent : HostBridge.toEvent command = .error fault) :
    applyPeerInbound links now h command originPeerId =
      (h, (relayedCommand links command originPeerId).effects) := by
  rw [applyPeerInbound, hevent]

/-- A command that the hub hears of. -/
theorem applyPeerInbound_of_ok {event : Option ConversEvent}
    (hevent : HostBridge.toEvent command = .ok event) :
    applyPeerInbound links now h command originPeerId =
      ((applyEvents links (some originPeerId) now h event.toList).1,
        ((relayedCommand links command originPeerId).andThen
          (applyEvents links (some originPeerId) now h event.toList).2).effects) := by
  rw [applyPeerInbound, hevent]

end Inbound

/-! ### What the hosts are written -/

section Quiet

variable (links : Links) (exceptPeerId : Option Text) (now : DateTimeOffset) (h : Hub)
  {events : List ConversEvent}

/-- Events from the hosts are not passed to the peers. -/
theorem enqueuedTo_applyEvents (hevents : ∀ event ∈ events, event.isLocal = false) (peer : Text) :
    enqueuedTo peer (applyEvents links exceptPeerId now h events).2.effects = [] := by
  induction events generalizing h with
  | nil => rfl
  | cons event events ih =>
    rw [applyEvents]
    split
    · rfl
    · refine enqueuedTo_andThen (enqueuedTo_andThen rfl ?_)
        (ih _ fun e he => hevents e (List.mem_cons_of_mem _ he))
      refine enqueuedTo_dispatchActions links exceptPeerId _ (fun a ha => ?_) peer
      rcases h.advance_of_not_isLocal now (hevents event (by simp)) a ha with
        hdeliver | ⟨-, rfl⟩ | ⟨reason, rfl⟩
      · exact ConversAction.isContent_of_isDeliver hdeliver
      · rfl
      · rfl

/-- Events from the hosts are not passed to the uplink; only a ping is answered. -/
theorem attempted_applyEvents (hevents : ∀ event ∈ events, event.isLocal = false)
    (hping : .hostPing ∉ events) :
    attempted (applyEvents links exceptPeerId now h events).2.effects = [] := by
  induction events generalizing h with
  | nil => rfl
  | cons event events ih =>
    rw [applyEvents]
    split
    · rfl
    · refine attempted_andThen (attempted_andThen rfl ?_)
        (ih _ (fun e he => hevents e (List.mem_cons_of_mem _ he))
          fun hmem => hping (List.mem_cons_of_mem _ hmem))
      refine attempted_dispatchActions links exceptPeerId _ fun a ha => ?_
      rcases h.advance_of_not_isLocal now (hevents event (by simp)) a ha with
        hdeliver | ⟨rfl, -⟩ | ⟨reason, rfl⟩
      · exact ConversAction.isSend_of_isDeliver hdeliver
      · exact absurd (List.mem_cons_self) hping
      · rfl

end Quiet

/-- The copies for the peers are one for each but the exception. -/
theorem enqueuedTo_fanOutToPeers (links : Links) (exceptPeerId : Option Text)
    (includeUplink : Bool) (command : HostCommand) (peer : Text) :
    enqueuedTo peer (fanOutToPeers links true exceptPeerId includeUplink command).effects =
      if peer ∈ links.peers ∧ some peer ≠ exceptPeerId then [command] else [] := by
  have hcopies : enqueuedTo peer
      ((links.peers.filter fun p => some p ≠ exceptPeerId).map (.enqueue · command)) =
        if peer ∈ links.peers ∧ some peer ≠ exceptPeerId then [command] else [] := by
    rw [enqueuedTo_enqueue peer _ command (links.nodup.filter _)]
    simp
  rw [fanOutToPeers]
  split
  · rw [Trace.effects_andThen, enqueuedTo_append]
    exact hcopies
  · exact hcopies

/-- The copy for the uplink is made when it is asked for and the uplink is not the
exception. -/
theorem attempted_fanOutToPeers (links : Links) (exceptPeerId : Option Text)
    (includeUplink : Bool) (command : HostCommand) :
    attempted (fanOutToPeers links true exceptPeerId includeUplink command).effects =
      if includeUplink && links.reachesUplink exceptPeerId then [command] else [] := by
  rw [fanOutToPeers]
  split
  · rw [Trace.effects_andThen, attempted_append]
    simp [sendCommand, attempted]
  · simp

end HostLink

end Convers
