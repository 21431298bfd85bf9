import Convers.Host.Parent
import Convers.Core.Unbroken

/-!
# One line for each command

A node writes to another host what it reads off its links, what its hub announces, and replies of
its own. Nowhere on the way is a text looked at for line breaks. They cannot come off a link, where
they end a line (`Convers.HostCommandCodec.isUnbroken_of_mem_feedReads`), so none gets out unless
one is handed in by a session (`Convers.Node.Unbroken`); and as long as none is, the other end
reads one line for each command that is written to it, and nothing else, over the whole run
(`Convers.Node.framed_run`).
-/

namespace Convers

open HostCommandCodec
open HostLink (Effect Trace writtenTo attempted enqueuedTo)

/-- No text of the options has a line break. -/
structure HostLinkOptions.Unbroken (options : HostLinkOptions) : Prop where
  hostName : IsUnbroken options.hostName
  software : IsUnbroken options.software
  sysInfo : IsUnbroken options.sysInfo

instance (options : HostLinkOptions) : Decidable options.Unbroken :=
  decidable_of_iff (IsUnbroken options.hostName ∧ IsUnbroken options.software ∧
    IsUnbroken options.sysInfo) ⟨fun h => ⟨h.1, h.2.1, h.2.2⟩, fun h => ⟨h.1, h.2, h.3⟩⟩

/-- No text that an engine keeps has a line break. -/
structure HostLinkEngine.Unbroken (e : HostLinkEngine) : Prop where
  options : e.options.Unbroken
  peerHostName : IsUnbroken e.peerHostName

/-- No text that a step has for a driver has a line break. -/
structure EngineStep.Unbroken (step : EngineStep) : Prop where
  outboundCommands : ∀ c ∈ step.outboundCommands, c.Unbroken
  hubEvents : ∀ event ∈ step.hubEvents, event.Unbroken

/-- The command that a call writes. -/
def HostLink.Effect.command : Effect → Option HostCommand
  | .uplink c _ | .enqueue _ c => some c
  | _ => none

/-- Whatever the calls write has no line break. -/
def HostLink.Unbroken (effects : List Effect) : Prop :=
  ∀ effect ∈ effects, ∀ c ∈ effect.command, c.Unbroken

/-! ### The engine -/

namespace HostBridge

/-- The bridge adds no line break. -/
theorem unbroken_toEvent {c : HostCommand} {event : ConversEvent} (h : c.Unbroken)
    (hevent : toEvent c = .ok (some event)) : event.Unbroken := by
  have hstamp {seconds : Int64} {f : DateTimeOffset → ConversEvent}
      (hf : (do let t ← fromUnix seconds; .ok (some (f t))) = Except.ok (some event)) :
      ∃ t, f t = event := by
    rcases ht : fromUnix seconds with fault | t
    · rw [ht] at hf
      cases hf
    · rw [ht] at hf
      cases hf
      exact ⟨t, rfl⟩
  cases c with
  | hostUser | hostAway | hostTopic =>
    obtain ⟨t, rfl⟩ := hstamp hevent
    exact h
  | hostHandshake => cases hevent
  | hostOper fromName channel user =>
    cases hevent
    simp only [HostCommand.Unbroken, HostCommand.texts, List.forall_mem_cons] at h
    exact List.forall_mem_cons.mpr ⟨h.2.1, List.forall_mem_singleton.mpr .nil⟩
  | hostDest | hostRoute | hostSysInfo | hostExtendedCommand | hostHelp | hostUserAdd
  | unknownHostCommand =>
    cases hevent
    exact List.forall_mem_singleton.mpr (isUnbroken_format h)
  | _ =>
    cases hevent
    exact h

/-- What a send is on the wire has the texts of the send. -/
theorem texts_toHostCommand {a : ConversAction} {c : HostCommand}
    (h : toHostCommand a = some c) : c.texts = a.sent := by
  cases a <;> cases h <;> rfl

end HostBridge

namespace HostLinkEngine

variable {e e' : HostLinkEngine} {step : EngineStep} {now : DateTimeOffset} {line : Text}
  {c : HostCommand}

theorem unbroken_none : EngineStep.none.Unbroken := ⟨by rintro _ ⟨⟩, by rintro _ ⟨⟩⟩

theorem Unbroken.handshake (h : e.Unbroken) : e.handshake.Unbroken := by
  simp only [HostCommand.Unbroken, HostLinkEngine.handshake, HostCommand.texts,
    List.forall_mem_cons]
  exact ⟨h.options.hostName, h.options.software, List.forall_mem_nil _⟩

theorem Unbroken.onConnected (now : DateTimeOffset) {options : HostLinkOptions}
    (h : options.Unbroken) (inbound : Bool) :
    ((new options inbound).onConnected now).1.Unbroken ∧
      ((new options inbound).onConnected now).2.Unbroken := by
  have hnew : (new options inbound).Unbroken := ⟨h, .nil⟩
  exact ⟨⟨h, .nil⟩, List.forall_mem_singleton.mpr hnew.handshake, by rintro _ ⟨⟩⟩

/-- The reply to a query for the route. -/
theorem Unbroken.routeReply (h : e.Unbroken) {dest user : Text} (hdest : IsUnbroken dest)
    (huser : IsUnbroken user) : (e.routeReply dest user).Unbroken := by
  have hlead : IsUnbroken "*** route: ".toList := by decide
  have harrow : IsUnbroken " -> ".toList := by decide
  have hparent : IsUnbroken
      (if e.peerHostName.length = 0 then "(uplink)".toList else e.peerHostName) := by
    split
    · decide
    · exact h.peerHostName
  simp only [HostCommand.Unbroken, HostLinkEngine.routeReply, HostCommand.texts,
    List.forall_mem_cons]
  refine ⟨by decide, huser, ?_, List.forall_mem_nil _⟩
  exact ((((hlead.append h.options.hostName).append harrow).append hparent).append harrow).append
    hdest

/-- The replies to a query for the system. -/
theorem Unbroken.sysInfoReplies (h : e.Unbroken) {user host : Text} (huser : IsUnbroken user) :
    ∀ c ∈ e.sysInfoReplies user host, c.Unbroken := by
  have hline {text : Text} (htext : IsUnbroken text) :
      (HostCommand.hostUserMessage systemSender user
        ("*** ".toList ++ e.options.hostName ++ ": ".toList ++ text)).Unbroken := by
    have hlead : IsUnbroken "*** ".toList := by decide
    have hcolon : IsUnbroken ": ".toList := by decide
    simp only [HostCommand.Unbroken, HostCommand.texts, List.forall_mem_cons]
    exact ⟨by decide, huser, ((hlead.append h.options.hostName).append hcolon).append htext,
      List.forall_mem_nil _⟩
  have hversion : IsUnbroken
      ("pdn-convers ".toList ++ e.options.software ++ " (strict leaf)".toList) := by
    have hlead : IsUnbroken "pdn-convers ".toList := by decide
    exact (hlead.append h.options.software).append (by decide)
  rw [HostLinkEngine.sysInfoReplies]
  split
  · refine List.forall_mem_cons.mpr ⟨hline hversion, ?_⟩
    split
    · exact List.forall_mem_singleton.mpr (hline h.options.sysInfo)
    · exact List.forall_mem_nil _
  · exact List.forall_mem_nil _

/-- **A line without a line break** leaves none in the engine, and none in what it answers. The
engine keeps no text of the line, and its answers are made of its own options. -/
theorem Unbroken.onLineReceived (h : e.Unbroken) (hline : IsUnbroken line)
    (hread : e.onLineReceived now line = .ok (e', step)) : e'.Unbroken ∧ step.Unbroken := by
  have hheard (state : HostLinkState) : Unbroken { e with lastInbound := now, state := state } :=
    ⟨h.options, h.peerHostName⟩
  have hbridge {c : HostCommand} (hc : c.Unbroken) {e₀ : HostLinkEngine} (he₀ : e₀.Unbroken)
      (hok : (HostBridge.toEvent c >>= fun event =>
        Except.ok (e₀, { EngineStep.none with hubEvents := event.toList })) = .ok (e', step)) :
      e'.Unbroken ∧ step.Unbroken := by
    obtain ⟨rfl, hstep, hevents⟩ := of_bridge hok
    refine ⟨he₀, ?_, fun event hevent => HostBridge.unbroken_toEvent hc (hevents event hevent)⟩
    rw [hstep]
    rintro _ ⟨⟩
  rw [onLineReceived_eq] at hread
  rcases hparsed : (stripPrefix line).map parseBody with _ | c
  · rw [hparsed] at hread
    cases hread
    exact ⟨hheard _, unbroken_none⟩
  · have hc := unbroken_of_parsed hline hparsed
    rw [hparsed] at hread
    rcases hstate : e.state with _ | _ | _
    · simp only [hstate] at hread
      cases hread
      exact ⟨hheard _, unbroken_none⟩
    · simp only [hstate] at hread
      cases c with
      | hostHandshake hostname software facilities =>
        -- the name of the peer is off the line
        cases hread
        refine ⟨⟨h.options, (List.forall_mem_cons.mp hc).1⟩, ?_, by rintro _ ⟨⟩⟩
        dsimp only
        split
        · exact List.forall_mem_singleton.mpr h.handshake
        · exact List.forall_mem_nil _
      | _ => exact hbridge hc (hheard _) hread
    · simp only [hstate] at hread
      cases c with
      | hostHandshake =>
        cases hread
        exact ⟨hheard _, by rintro _ ⟨⟩, by rintro _ ⟨⟩⟩
      | hostPong time =>
        cases hread
        exact ⟨⟨h.options, h.peerHostName⟩, by rintro _ ⟨⟩,
          List.forall_mem_singleton.mpr (List.forall_mem_nil _)⟩
      | hostLoop detail =>
        cases hread
        exact ⟨hheard _, by rintro _ ⟨⟩, List.forall_mem_singleton.mpr hc⟩
      | hostRoute dest user ttl =>
        cases hread
        simp only [HostCommand.Unbroken, HostCommand.texts, List.forall_mem_cons] at hc
        exact ⟨hheard _, List.forall_mem_singleton.mpr ((hheard _).routeReply hc.1 hc.2.1),
          by rintro _ ⟨⟩⟩
      | hostSysInfo user host =>
        cases hread
        exact ⟨hheard _, (hheard _).sysInfoReplies (List.forall_mem_cons.mp hc).1, by rintro _ ⟨⟩⟩
      | _ => exact hbridge hc (hheard _) hread

theorem Unbroken.onTick (h : e.Unbroken) (now : DateTimeOffset) :
    (e.onTick now).1.Unbroken ∧ (e.onTick now).2.Unbroken := by
  obtain ⟨hevents, hpings⟩ := onTick_pings now e
  refine ⟨?_, fun c hc => ?_, ?_⟩
  · cases move_tick now e with
    | stalled _ he | silent _ he | pinged _ _ _ he | idle _ _ he =>
      rw [he]
      exact ⟨h.options, h.peerHostName⟩
  · rw [hpings c hc]
    exact List.forall_mem_nil _
  · rw [hevents]
    rintro _ ⟨⟩

end HostLinkEngine

/-! ### The calls -/

namespace Hub

variable {h : Hub} {now : DateTimeOffset} {e : ConversEvent}

/-- **No action of the hub sends a line break.** The commands of the loop are made of them, one by
one. -/
theorem Unbroken.actions (hu : h.Unbroken) (he : e.Unbroken) :
    ∀ a ∈ (h.advance now e).actions, a.Unbroken := by
  intro a ha
  by_cases hcontent : a.isContent = true
  · rcases hlocal : e.isLocal with _ | _
    · -- an event from a host has no content to send
      rcases h.advance_of_not_isLocal now hlocal a ha with hdeliver | ⟨-, rfl⟩ | ⟨reason, rfl⟩
      · rw [ConversAction.isContent_of_isDeliver hdeliver] at hcontent
        cases hcontent
      · cases hcontent
      · cases hcontent
    · exact hu.announcement he (announcement_of_mem hlocal ha hcontent).2
  · have hsent : a.sent = [] := by
      cases a with
      | sendUser | sendChannelMessage | sendPrivateMessage | sendPersonal | sendAway | sendTopic
      | sendInvite | sendMode => exact absurd rfl hcontent
      | _ => rfl
    rw [ConversAction.Unbroken, hsent]
    exact List.forall_mem_nil _

end Hub

namespace HostLink

variable {links : Links} {h : Hub} {now : DateTimeOffset} {l m : List Effect} {c : HostCommand}

theorem unbroken_nil : Unbroken [] := by rintro _ ⟨⟩

theorem Unbroken.append (hl : Unbroken l) (hm : Unbroken m) : Unbroken (l ++ m) :=
  List.forall_mem_append.mpr ⟨hl, hm⟩

theorem Unbroken.andThen {s t : Trace} (hs : Unbroken s.effects) (ht : Unbroken t.effects) :
    Unbroken (s.andThen t).effects := by
  rw [Trace.effects_andThen]
  split
  · exact hs.append unbroken_nil
  · exact hs.append ht

/-- Commands that are written one after another. -/
theorem unbroken_map {commands : List HostCommand} {f : HostCommand → Effect}
    (hf : ∀ c, (f c).command = some c) (hcommands : ∀ c ∈ commands, c.Unbroken) :
    Unbroken (commands.map f) := by
  intro effect heffect d hd
  obtain ⟨c, hc, rfl⟩ := List.mem_map.mp heffect
  rw [hf c] at hd
  exact Option.some.inj hd ▸ hcommands c hc

/-- Calls that write nothing. -/
theorem unbroken_of_silent (h : ∀ effect ∈ l, effect.command = none) : Unbroken l := by
  intro effect heffect c hc
  rw [h effect heffect] at hc
  cases hc

theorem unbroken_fanOutToPeers (hc : c.Unbroken) (succeeds : Bool) (exceptPeerId : Option Text)
    (includeUplink : Bool) :
    Unbroken (fanOutToPeers links succeeds exceptPeerId includeUplink c).effects := by
  have hone {effect : Effect} (heffect : effect.command = some c) : ∀ d ∈ effect.command,
      d.Unbroken := by
    rw [heffect]
    rintro _ ⟨⟩
    exact hc
  refine Unbroken.andThen ?_ fun effect heffect => ?_
  · split
    · exact List.forall_mem_singleton.mpr (hone rfl)
    · exact unbroken_nil
  · obtain ⟨peer, -, rfl⟩ := List.mem_map.mp heffect
    exact hone rfl

theorem unbroken_dispatchActions {actions : List ConversAction}
    (hactions : ∀ a ∈ actions, a.Unbroken) (exceptPeerId : Option Text) (succeeds : ℕ → Bool) :
    Unbroken (dispatchActions links exceptPeerId succeeds actions).effects := by
  induction actions generalizing succeeds with
  | nil => exact unbroken_nil
  | cons action actions ih =>
    have hrest := ih fun a ha => hactions a (List.mem_cons_of_mem _ ha)
    rw [dispatchActions.eq_def]
    split
    · rename_i heq
      cases heq
    · rename_i heq
      cases heq
      exact hrest _
    · rename_i heq
      cases heq
      split
      · rename_i command hcommand
        have hc : command.Unbroken := by
          rw [HostCommand.Unbroken, HostBridge.texts_toHostCommand hcommand]
          exact hactions _ List.mem_cons_self
        refine Unbroken.andThen (Unbroken.andThen ?_ ?_) (hrest _)
        · split
          · refine List.forall_mem_singleton.mpr ?_
            rintro _ ⟨⟩
            exact hc
          · exact unbroken_nil
        · split
          · exact unbroken_nil
          · exact unbroken_fanOutToPeers hc _ _ _
      · refine Unbroken.andThen ?_ (hrest _)
        refine List.forall_mem_singleton.mpr ?_
        rintro _ ⟨⟩

theorem unbroken_applyEvents (hu : h.Unbroken) {events : List ConversEvent}
    (hevents : ∀ event ∈ events, event.Unbroken) (exceptPeerId : Option Text) :
    (applyEvents links exceptPeerId now h events).1.Unbroken ∧
      Unbroken (applyEvents links exceptPeerId now h events).2.effects := by
  have hinbound (event : ConversEvent) : Unbroken [.onInbound event] :=
    List.forall_mem_singleton.mpr (by rintro _ ⟨⟩)
  induction events generalizing h with
  | nil => exact ⟨hu, unbroken_nil⟩
  | cons event events ih =>
    have hevent := hevents event List.mem_cons_self
    have hstep : (h.advance now event).hub.Unbroken := hu.step hevent
    rw [applyEvents]
    dsimp only
    split
    · exact ⟨hstep, hinbound event⟩
    · obtain ⟨hhub, hrest⟩ := ih hstep fun e he => hevents e (List.mem_cons_of_mem _ he)
      refine ⟨hhub, Unbroken.andThen (Unbroken.andThen (hinbound event) ?_) hrest⟩
      exact unbroken_dispatchActions (hu.actions hevent) _ _

theorem unbroken_applyStep (hu : h.Unbroken) {step : EngineStep} (hstep : step.Unbroken) :
    (applyStep links now h step).1.Unbroken ∧ Unbroken (applyStep links now h step).2.effects := by
  obtain ⟨hhub, heffects⟩ := unbroken_applyEvents hu hstep.hubEvents none
  exact ⟨hhub, Unbroken.andThen (unbroken_map (fun _ => rfl) hstep.outboundCommands) heffects⟩

/-- The announcement of a user. -/
theorem unbroken_announceUser {u : NetworkUser} (hu : u.Unbroken) :
    ∀ c ∈ announceUser u, c.Unbroken := by
  have hnil := List.forall_mem_nil IsUnbroken
  have hthree {s t r : Text} (hs : IsUnbroken s) (ht : IsUnbroken t) (hr : IsUnbroken r) :
      ∀ x ∈ [s, t, r], IsUnbroken x :=
    List.forall_mem_cons.mpr ⟨hs, List.forall_mem_cons.mpr ⟨ht, List.forall_mem_singleton.mpr hr⟩⟩
  rw [announceUser]
  refine List.forall_mem_cons.mpr ⟨hthree hu.name hu.host hu.personal,
    List.forall_mem_append.mpr ⟨?_, ?_⟩⟩
  · split
    · exact List.forall_mem_singleton.mpr (hthree hu.name hu.host hu.personal)
    · exact List.forall_mem_nil _
  · split
    · exact List.forall_mem_singleton.mpr (hthree hu.name hu.host hu.away)
    · exact List.forall_mem_nil _

theorem unbroken_networkUsers (hu : h.Unbroken) : ∀ u ∈ h.networkUsers, u.Unbroken :=
  fun u hmem => hu.users u (List.mem_mergeSort.mp hmem)

theorem unbroken_onEstablished (hu : h.Unbroken) : ∀ c ∈ onEstablished h, c.Unbroken := by
  intro c hc
  obtain ⟨u, hmem, hc⟩ := List.mem_flatMap.mp hc
  exact unbroken_announceUser (unbroken_networkUsers hu u (List.mem_of_mem_filter hmem)) c hc

theorem unbroken_contentOf {line : Text} (hline : IsUnbroken line)
    (hc : PeerRelay.contentOf line = some c) : c.Unbroken :=
  unbroken_of_parsed hline (PeerRelay.contentOf_eq_some.mp hc).1

theorem unbroken_relayedLine {line : Text} (hline : IsUnbroken line) (e : HostLinkEngine) :
    Unbroken (relayedLine links e line).effects := by
  rw [relayedLine]
  split
  · split
    · rename_i c hc
      exact unbroken_fanOutToPeers (unbroken_contentOf hline hc) _ _ _
    · exact unbroken_nil
  · exact unbroken_nil

/-- **A line of the parent** leaves no line break, and is answered and relayed without one. It is
the same for a line that drops the link and for one that does not. -/
theorem unbroken_receiveLine (hu : h.Unbroken) {e : HostLinkEngine} (he : e.Unbroken) {line : Text}
    (hline : IsUnbroken line) :
    (∀ e' ∈ (receiveLine links now e h line).1, e'.Unbroken) ∧
      (receiveLine links now e h line).2.1.Unbroken ∧
        Unbroken (receiveLine links now e h line).2.2 := by
  rcases hread : e.onLineReceived now line with fault | ⟨engine, step⟩
  · rw [receiveLine, hread]
    exact ⟨by rintro _ ⟨⟩, hu, unbroken_nil⟩
  · obtain ⟨hengine, hstep⟩ := he.onLineReceived hline hread
    obtain ⟨hhub, heffects⟩ : (applyStep links now h step).1.Unbroken ∧
        Unbroken (applyStep links now h step).2.effects := unbroken_applyStep hu hstep
    have hrelayed : Unbroken (relayedLine links engine line).effects :=
      unbroken_relayedLine hline engine
    have hdone := hrelayed.andThen heffects
    rcases hdrop : step.dropReason with _ | reason
    · rw [receiveLine_of_keep links h hread hdrop]
      refine ⟨?_, hhub, hdone.andThen ?_⟩
      · rintro _ ⟨⟩
        exact hengine
      · split
        · exact unbroken_map (fun _ => rfl) (unbroken_onEstablished hhub)
        · exact unbroken_nil
    · rw [receiveLine_of_drop links h hread (by rw [hdrop]; rfl)]
      exact ⟨by rintro _ ⟨⟩, hhub, hdone⟩

/-- **A command of a peer** leaves no line break, and is relayed without one. It does not matter for
it whether the hub can make an event of the command. -/
theorem unbroken_applyPeerInbound (hu : h.Unbroken) (hc : c.Unbroken) (originPeerId : Text) :
    (applyPeerInbound links now h c originPeerId).1.Unbroken ∧
      Unbroken (applyPeerInbound links now h c originPeerId).2 := by
  have hrelayed : Unbroken (relayedCommand links c originPeerId).effects := by
    rw [relayedCommand]
    split
    · rename_i forwarded hforwarded
      obtain ⟨-, rfl⟩ := PeerRelay.forwarded_eq_some.mp hforwarded
      exact unbroken_fanOutToPeers hc _ _ _
    · exact unbroken_nil
  rcases hevent : HostBridge.toEvent c with fault | event
  · rw [applyPeerInbound_of_error links h originPeerId hevent]
    exact ⟨hu, hrelayed⟩
  · rw [applyPeerInbound_of_ok links h originPeerId hevent]
    have hevents : ∀ e ∈ event.toList, e.Unbroken := by
      intro e he
      refine HostBridge.unbroken_toEvent hc ?_
      rw [hevent, Option.mem_toList.mp he]
    obtain ⟨hhub, heffects⟩ :
        (applyEvents links (some originPeerId) now h event.toList).1.Unbroken ∧
          Unbroken (applyEvents links (some originPeerId) now h event.toList).2.effects :=
      unbroken_applyEvents hu hevents _
    exact ⟨hhub, hrelayed.andThen heffects⟩

/-- **An event of a session** leaves no line break, and is answered without one. Here alone a text
comes in that is not off a line, so here the condition is asked for. -/
theorem unbroken_drainLocalEvent (hu : h.Unbroken) {event : ConversEvent} (he : event.Unbroken)
    (isLoggable : ConversEvent → Bool) (succeeds : ℕ → Bool) :
    (drainLocalEvent links isLoggable succeeds now h event).1.Unbroken ∧
      Unbroken (drainLocalEvent links isLoggable succeeds now h event).2.effects := by
  have hstep : (h.advance now event).hub.Unbroken := hu.step he
  rw [drainLocalEvent]
  dsimp only
  split
  · exact ⟨hstep, unbroken_nil⟩
  · refine ⟨hstep, (unbroken_dispatchActions (hu.actions he) _ _).andThen ?_⟩
    refine unbroken_of_silent fun effect heffect => ?_
    split at heffect
    · rw [List.mem_singleton.mp heffect]
      rfl
    · cases heffect

end HostLink

/-! ### The node -/

/-- No text that a session holds or has for its peer has a line break. -/
structure PeerSession.Unbroken (s : PeerSession) : Prop where
  engine : s.engine.Unbroken
  inbox : ∀ line ∈ s.inbox, IsUnbroken line
  earlyContent : ∀ line ∈ s.earlyContent, IsUnbroken line
  announcing : ∀ commands, s.phase = .announcing commands → ∀ c ∈ commands, c.Unbroken

/-- No text of what waits for the loop has a line break. -/
def HubWork.Unbroken (work : HubWork) : Prop :=
  match work with
  | .event e => e.Unbroken
  | .snapshot _ => True
  | .peer c _ => c.Unbroken

namespace Node

/-- No text that comes in with a step has a line break. -/
def Label.Unbroken : Label → Prop
  | .submit event => event.Unbroken
  | .uplinkLine _ line | .arrive _ line => IsUnbroken line
  | .accept _ lines => ∀ line ∈ lines, IsUnbroken line
  | _ => True

/-- **No text that the node keeps has a line break.** -/
structure Unbroken (n : Node) : Prop where
  options : n.options.Unbroken
  hub : n.hub.Unbroken
  uplink : ∀ e ∈ n.uplink, e.Unbroken
  sessions : n.sessions.All PeerSession.Unbroken
  queue : ∀ work ∈ n.queue, work.Unbroken

instance : (label : Label) → Decidable label.Unbroken
  | .submit event => inferInstanceAs (Decidable event.Unbroken)
  | .uplinkLine _ line | .arrive _ line => inferInstanceAs (Decidable (IsUnbroken line))
  | .accept _ lines => inferInstanceAs (Decidable (∀ line ∈ lines, IsUnbroken line))
  | .drain _ | .connect _ | .uplinkTick _ | .uplinkLoss | .read .. | .proceed _ | .peerTick ..
  | .peerLoss _ => inferInstanceAs (Decidable True)

variable {n : Node} {label : Label}

theorem unbroken_new {options : HostLinkOptions} (hoptions : options.Unbroken) {hub : Hub}
    (hhub : hub.Unbroken) : (new options hub).Unbroken :=
  ⟨hoptions, hhub, by rintro _ ⟨⟩, Table.all_empty, by rintro _ ⟨⟩⟩

/-- What a session that joins is told of the network. -/
theorem unbroken_presence {h : Hub} (hu : h.Unbroken) : ∀ c ∈ presence h, c.Unbroken := by
  rw [presence]
  refine List.forall_mem_append.mpr ⟨fun c hc => ?_, fun c hc => ?_⟩
  · obtain ⟨u, hmem, hc⟩ := List.mem_flatMap.mp hc
    exact HostLink.unbroken_announceUser (HostLink.unbroken_networkUsers hu u hmem) c hc
  · obtain ⟨channel, -, hc⟩ := List.mem_flatMap.mp hc
    obtain ⟨htopic, hsetBy⟩ := hu.channelState channel
    have hby : IsUnbroken (if (h.channelState channel).topicSetBy.length = 0 then
        "conversd".toList else (h.channelState channel).topicSetBy) := by
      split
      · decide
      · exact hsetBy
    rcases List.mem_append.mp hc with hc | hc
    · split at hc
      · rw [List.mem_singleton.mp hc]
        exact List.forall_mem_cons.mpr ⟨hby, List.forall_mem_cons.mpr
          ⟨hu.hostName, List.forall_mem_singleton.mpr htopic⟩⟩
      · cases hc
    · split at hc
      · rw [List.mem_singleton.mp hc]
        exact List.forall_mem_singleton.mpr (isUnbroken_toWire _)
      · cases hc

theorem Unbroken.putSession (h : n.Unbroken) {s : PeerSession} (hs : s.Unbroken) :
    (n.putSession s).Unbroken :=
  ⟨h.options, h.hub, h.uplink, h.sessions.put hs, h.queue⟩

theorem Unbroken.endSession (h : n.Unbroken) (id : Text) : (n.endSession id).Unbroken :=
  ⟨h.options, h.hub, h.uplink, h.sessions.remove id, h.queue⟩

theorem Unbroken.enqueueWork (h : n.Unbroken) {work : HubWork} (hwork : work.Unbroken) :
    (n.enqueueWork work).Unbroken :=
  ⟨h.options, h.hub, h.uplink, h.sessions,
    List.forall_mem_append.mpr ⟨h.queue, List.forall_mem_singleton.mpr hwork⟩⟩

theorem Unbroken.submitContent (h : n.Unbroken) {line : Text} (hline : IsUnbroken line)
    (id : Text) : (n.submitContent id line).Unbroken := by
  rw [Node.submitContent]
  split
  · rename_i c hc
    exact h.enqueueWork (HostLink.unbroken_contentOf hline hc)
  · exact h

theorem unbroken_applyPeerStep {step : EngineStep} (hstep : step.Unbroken) (id : Text) :
    HostLink.Unbroken (applyPeerStep id step) := by
  refine HostLink.unbroken_map (fun _ => rfl)
    (List.forall_mem_append.mpr ⟨hstep.outboundCommands, fun c hc => ?_⟩)
  obtain ⟨-, -, rfl⟩ := List.mem_map.mp hc
  exact List.forall_mem_nil _

/-- **A session reads a line**: what it keeps, and what is left of its inbox and its engine. What it
submits is the command of the line, and so unbroken too. -/
theorem Unbroken.read (h : n.Unbroken) {session : PeerSession} {line : Text} {lines : List Text}
    (hfind : n.sessions.find? session.id = some session) (hinbox : session.inbox = line :: lines)
    {engine : HostLinkEngine} {step : EngineStep} {now : DateTimeOffset}
    (hread : session.engine.onLineReceived now line = .ok (engine, step)) :
    IsUnbroken line ∧ PeerSession.Unbroken { session with inbox := lines, engine := engine } ∧
      HostLink.Unbroken (applyPeerStep session.id step) := by
  have hs := h.sessions.find? hfind
  obtain ⟨hfirst, hrest⟩ := List.forall_mem_cons.mp (hinbox ▸ hs.inbox)
  obtain ⟨hengine, hstep⟩ := hs.engine.onLineReceived hfirst hread
  exact ⟨hfirst, ⟨hengine, hrest, hs.earlyContent, hs.announcing⟩, unbroken_applyPeerStep hstep _⟩

/-- **A step that brings no line break in** leaves none, and writes none. There is one lemma above
for each source of texts. -/
theorem Unbroken.step (h : n.Unbroken) (hlabel : label.Unbroken) :
    (n.step label).Unbroken ∧ HostLink.Unbroken (n.effects label) := by
  obtain ⟨n', calls, hnext, hc⟩ := n.exists_change label
  rw [Node.step, effects, hnext]
  have hpopped {work : HubWork} {queue : List HubWork} (hqueue : n.queue = work :: queue) :
      work.Unbroken ∧ ∀ w ∈ queue, w.Unbroken := List.forall_mem_cons.mp (hqueue ▸ h.queue)
  cases hc with
  | idle => exact ⟨h, HostLink.unbroken_nil⟩
  | submitted event => exact ⟨h.enqueueWork hlabel, HostLink.unbroken_nil⟩
  | drained now hqueue =>
    obtain ⟨hevent, hrest⟩ := hpopped hqueue
    obtain ⟨hhub, heffects⟩ := HostLink.unbroken_drainLocalEvent h.hub hevent _ _
    exact ⟨⟨h.options, hhub, h.uplink, h.sessions, hrest⟩, heffects⟩
  | passed now hqueue =>
    obtain ⟨hcommand, hrest⟩ := hpopped hqueue
    obtain ⟨hhub, heffects⟩ := HostLink.unbroken_applyPeerInbound h.hub hcommand _
    exact ⟨⟨h.options, hhub, h.uplink, h.sessions, hrest⟩, heffects⟩
  | @answered peerId queue session now hqueue hfind hphase =>
    -- the snapshot is of the hub as it is now
    obtain ⟨hengine, hinbox, hearly, -⟩ := h.sessions.find? hfind
    have hskip : Unbroken { n with queue := queue } :=
      ⟨h.options, h.hub, h.uplink, h.sessions, (hpopped hqueue).2⟩
    have hs : PeerSession.Unbroken { session with phase := .announcing (presence n.hub) } := by
      refine ⟨hengine, hinbox, hearly, ?_⟩
      rintro _ ⟨⟩
      exact unbroken_presence h.hub
    exact ⟨hskip.putSession hs, HostLink.unbroken_nil⟩
  | skipped now hqueue hnot =>
    exact ⟨⟨h.options, h.hub, h.uplink, h.sessions, (hpopped hqueue).2⟩, HostLink.unbroken_nil⟩
  | connected now hup hengine =>
    obtain ⟨he, hstep⟩ := HostLinkEngine.Unbroken.onConnected now h.options false
    rw [hengine] at he hstep
    obtain ⟨hhub, heffects⟩ := HostLink.unbroken_applyStep h.hub hstep
    refine ⟨⟨h.options, hhub, ?_, h.sessions, h.queue⟩, heffects⟩
    rintro _ ⟨⟩
    exact he
  | heard now line hup =>
    obtain ⟨hengine, hhub, heffects⟩ :=
      HostLink.unbroken_receiveLine h.hub (h.uplink _ hup) hlabel
    exact ⟨⟨h.options, hhub, hengine, h.sessions, h.queue⟩, heffects⟩
  | @ticked engine now hup =>
    obtain ⟨hengine, hstep⟩ := (h.uplink _ hup).onTick now
    obtain ⟨hhub, heffects⟩ := HostLink.unbroken_applyStep h.hub hstep
    refine ⟨⟨h.options, hhub, fun e he => ?_, h.sessions, h.queue⟩, heffects⟩
    dsimp only at he
    split at he
    · cases he
    · cases he
      exact hengine
  | lost => exact ⟨⟨h.options, h.hub, by rintro _ ⟨⟩, h.sessions, h.queue⟩, HostLink.unbroken_nil⟩
  | @accepted engine step now lines hengine =>
    cases hengine
    have hs : PeerSession.Unbroken
        { id := peerIdOf (n.nextPeer + 1)
          engine := ((HostLinkEngine.new n.options true).onAccepted now).1
          inbox := lines, registered := false, earlyContent := [], phase := .receiving } := by
      refine ⟨⟨h.options, .nil⟩, hlabel, ?_, ?_⟩
      · rintro _ ⟨⟩
      · rintro _ ⟨⟩
    exact ⟨⟨h.options, h.hub, h.uplink, h.sessions.put hs, h.queue⟩,
      unbroken_applyPeerStep HostLinkEngine.unbroken_none (peerIdOf (n.nextPeer + 1))⟩
  | @arrived session line hfind =>
    obtain ⟨hengine, hinbox, hearly, hannouncing⟩ := h.sessions.find? hfind
    have hs' : PeerSession.Unbroken { session with inbox := session.inbox ++ [line] } :=
      ⟨hengine, List.forall_mem_append.mpr ⟨hinbox, List.forall_mem_singleton.mpr hlabel⟩, hearly,
        hannouncing⟩
    exact ⟨h.putSession hs', HostLink.unbroken_nil⟩
  | threw => exact ⟨h.endSession _, HostLink.unbroken_nil⟩
  | dropped now hfind hphase hinbox hread hdrop =>
    exact ⟨h.endSession _, (h.read hfind hinbox hread).2.2⟩
  | @registered session line lines engine step now hfind hphase hinbox hread hdrop hcompleted =>
    obtain ⟨-, hs, heffects⟩ := h.read hfind hinbox hread
    have hs' : PeerSession.Unbroken { session with
        inbox := lines, engine := engine, registered := true, phase := .awaitingSnapshot } := by
      refine ⟨hs.engine, hs.inbox, hs.earlyContent, ?_⟩
      rintro _ ⟨⟩
    have hsnapshot : (HubWork.snapshot session.id).Unbroken := trivial
    exact ⟨(h.putSession hs').enqueueWork hsnapshot, heffects⟩
  | @relayed session line lines engine step now hfind hphase hinbox hread hdrop hcompleted
      hregistered =>
    obtain ⟨hfirst, hs, heffects⟩ := h.read hfind hinbox hread
    exact ⟨(h.putSession hs).submitContent hfirst _, heffects⟩
  | @kept session line lines engine step now hfind hphase hinbox hread hdrop hcompleted
      hregistered =>
    obtain ⟨hfirst, hs, heffects⟩ := h.read hfind hinbox hread
    have hs' : PeerSession.Unbroken { session with
        inbox := lines, engine := engine, earlyContent := session.earlyContent ++ [line] } :=
      ⟨hs.engine, hs.inbox, List.forall_mem_append.mpr
        ⟨hs.earlyContent, List.forall_mem_singleton.mpr hfirst⟩, hs.announcing⟩
    exact ⟨h.putSession hs', heffects⟩
  | @announced session command commands hfind hphase =>
    obtain ⟨hengine, hinbox, hearly, hannouncing⟩ := h.sessions.find? hfind
    obtain ⟨hfirst, hrest⟩ := List.forall_mem_cons.mp (hannouncing _ hphase)
    have hs' : PeerSession.Unbroken { session with phase := .announcing commands } := by
      refine ⟨hengine, hinbox, hearly, ?_⟩
      rintro _ ⟨⟩
      exact hrest
    refine ⟨h.putSession hs', List.forall_mem_singleton.mpr ?_⟩
    rintro _ ⟨⟩
    exact hfirst
  | @resubmitted session line lines hfind hphase hearly =>
    have hs := h.sessions.find? hfind
    obtain ⟨hfirst, hrest⟩ := List.forall_mem_cons.mp (hearly ▸ hs.earlyContent)
    have hs' : PeerSession.Unbroken { session with earlyContent := lines } :=
      ⟨hs.engine, hs.inbox, hrest, hs.announcing⟩
    exact ⟨(h.putSession hs').submitContent hfirst _, HostLink.unbroken_nil⟩
  | @began session hfind hphase hearly =>
    obtain ⟨hengine, hinbox, hkept, -⟩ := h.sessions.find? hfind
    have hs' : PeerSession.Unbroken { session with phase := .receiving } := by
      refine ⟨hengine, hinbox, hkept, ?_⟩
      rintro _ ⟨⟩
    exact ⟨h.putSession hs', HostLink.unbroken_nil⟩
  | @peerDropped session now hfind hphase hdrop =>
    obtain ⟨-, hstep⟩ := (h.sessions.find? hfind).engine.onTick now
    exact ⟨h.endSession _, unbroken_applyPeerStep hstep _⟩
  | @peerTicked session now hfind hphase hdrop =>
    obtain ⟨hengine, hinbox, hearly, hannouncing⟩ := h.sessions.find? hfind
    obtain ⟨hengine, hstep⟩ := hengine.onTick now
    have hs' : PeerSession.Unbroken { session with engine := (session.engine.onTick now).1 } :=
      ⟨hengine, hinbox, hearly, hannouncing⟩
    exact ⟨h.putSession hs', unbroken_applyPeerStep hstep _⟩
  | peerLost => exact ⟨h.endSession _, HostLink.unbroken_nil⟩

/-! ### Whole runs -/

variable {host : RemoteHost} {l : List Effect} {c : HostCommand}

/-- What is written to a host is written by one of the calls. -/
theorem command_of_mem_writtenTo (hc : c ∈ writtenTo host l) :
    ∃ effect ∈ l, c ∈ effect.command := by
  cases host with
  | uplink =>
    obtain ⟨effect, hmem, heffect⟩ := List.mem_filterMap.mp hc
    refine ⟨effect, hmem, ?_⟩
    cases effect with
    | uplink => exact heffect
    | _ => cases heffect
  | peer peerId =>
    obtain ⟨effect, hmem, heffect⟩ := List.mem_filterMap.mp hc
    refine ⟨effect, hmem, ?_⟩
    cases effect with
    | enqueue => exact (Option.ite_none_right_eq_some.mp heffect).2
    | _ => cases heffect

/-- **No run writes a line break** in a command, if none comes in. So the frames of a run are as
many lines as there are commands. -/
theorem unbroken_written (h : n.Unbroken) {labels : List Label}
    (hlabels : ∀ label ∈ labels, label.Unbroken) (host : RemoteHost) :
    ∀ c ∈ (Run.trace Node.step n labels).flatMap fun p => writtenTo host (p.1.effects p.2),
      c.Unbroken := by
  have hlabel {p : Node × Label} (hp : p ∈ Run.trace Node.step n labels) : p.2.Unbroken :=
    hlabels p.2 (Run.mem_of_mem_trace hp)
  obtain ⟨hrun, -⟩ := Run.invariant h labels fun p hp hu => (hu.step (hlabel hp)).1
  intro c hc
  obtain ⟨p, hp, hc⟩ := List.mem_flatMap.mp hc
  obtain ⟨effect, hmem, hcommand⟩ := command_of_mem_writtenTo hc
  exact ((hrun p hp).step (hlabel hp)).2 effect hmem c hcommand

/-- **One line for each command.** A node whose options and whose hub have no line break in a text
is run through anything that brings none in. Take any stretch of the commands that are written to
a host on the way, such as those of one connection: the other end, however its reads cut the
bytes, assembles one line for each of these commands, in their order, and no other. -/
theorem framed_run {options : HostLinkOptions} (hoptions : options.Unbroken) {hub : Hub}
    (hhub : hub.Unbroken) {labels : List Label} (hlabels : ∀ label ∈ labels, label.Unbroken)
    (host : RemoteHost) {commands : List HostCommand}
    (hstretch : commands <:+: (Run.trace Node.step (new options hub) labels).flatMap fun p =>
      writtenTo host (p.1.effects p.2)) {reads : List (List UInt8)}
    (hreads : reads.flatten = commands.flatMap fun c => frameLine lf (format c)) :
    LineAssembler.dropEmpty (LineAssembler.fresh.feedReads reads).2 = commands.map lineOf := by
  have hcommands : ∀ c ∈ commands, c.Unbroken := fun c hc =>
    unbroken_written (unbroken_new hoptions hhub) hlabels host c (hstretch.subset hc)
  rw [(LineAssembler.lines_feedReads reads).2.2, splitReads_eq reads (by rintro _ ⟨⟩), hreads]
  exact congrArg Prod.fst (splitLines_frames hcommands)

/-- A peer that connects, and a user here who talks to it. -/
def exampleTalk : List Label :=
  [.accept Hub.exampleMoment ["/..HOST FAR saupp1.62a Aadmnp".toList],
    .read Hub.exampleMoment "peer-1".toList,
    .submit (.localJoin "rf-1".toList "m0abc".toList 7), .drain Hub.exampleMoment,
    .drain Hub.exampleMoment,
    .submit (.localSay "rf-1".toList "hello".toList), .drain Hub.exampleMoment]

/-- The peer reads the greeting, the user and his text off the bytes, one line for each. -/
theorem framed_exampleTalk :
    LineAssembler.dropEmpty (LineAssembler.fresh.feedReads
      [((Run.trace Node.step exampleStart exampleTalk).flatMap fun p =>
        writtenTo (.peer "peer-1".toList) (p.1.effects p.2)).flatMap
          fun c => frameLine lf (format c)]).2 =
      ["HOST NODE pdnconv1 Aampun".toList, "USER M0ABC NODE 1664403200 -1 7 @".toList,
        "CMSG M0ABC 7 hello".toList].map (hostCommandPrefix ++ ·) := by
  have hhub : (Hub.fresh "NODE".toList).Unbroken :=
    Hub.unbroken_new (by decide) (by rintro _ ⟨⟩) (@Hub.new_none "NODE".toList rfl)
  have hlabels : ∀ label ∈ exampleTalk, label.Unbroken := by decide
  refine (framed_run (by decide) hhub hlabels (.peer "peer-1".toList) (List.infix_refl _)
    (List.flatten_singleton)).trans ?_
  decide +kernel

end Node

end Convers
