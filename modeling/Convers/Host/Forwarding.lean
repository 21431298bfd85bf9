import Convers.Host.Password

/-!
# What the relay does not ask

The relay of a command comes before the hub is told of it, so it does not ask the hub. Two
rules of the hub are about what leaves the node, and neither is looked at on the way out: a
topic older than the one held is not taken, and is passed on (`Convers.Node.freshTopics_iff`);
the text of a channel with `+l` stays here when it is said here, and is passed on when it
comes from elsewhere (`Convers.Node.localText_iff`).

`Convers.Node.Orderly.writtenTo_of_deals` is what the step that deals with a command writes.
For the second rule everything else a node writes has to be gone through
(`Convers.Node.Tacit.carried`): the only other channel message is that of a session, which
the hub does not send from such a channel.
-/

namespace Convers

namespace HostCommand

/-- The channel a text is said on. -/
def spokenOn? : HostCommand → Option Int32
  | hostChannelMessage _ channel _ => some channel
  | _ => none

end HostCommand

namespace Hub

/-- A topic that is older than the one the hub holds on its channel. -/
def IsStale (h : Hub) : HostCommand → Prop
  | .hostTopic _ _ time channel _ => ∃ topic ∈ h.heldTopic channel,
    (time.toInt + DateTimeOffset.unixEpochSeconds) * 10000000 < topic.age
  | _ => False

/-- The text of a channel that is local here. -/
def IsLocalText (h : Hub) (command : HostCommand) : Prop :=
  ∃ channel ∈ command.spokenOn?, .localFlag ∈ h.modesOf channel

instance (h : Hub) (command : HostCommand) : Decidable (h.IsLocalText command) :=
  inferInstanceAs (Decidable (∃ channel ∈ command.spokenOn?, _))

instance (h : Hub) (command : HostCommand) : Decidable (h.IsStale command) := by
  cases command with
  | hostTopic user host time channel text =>
    exact inferInstanceAs (Decidable (∃ topic ∈ h.heldTopic channel, _))
  | _ => exact inferInstanceAs (Decidable False)

end Hub

namespace Node

open HostLink (writtenTo enqueuedTo attempted uplinkPeerId)

variable (n : Node) (label : Label)

/-- Another host than the one a command comes from is connected. -/
def HasOthers : RemoteHost → Prop
  | .uplink => n.links.peers ≠ []
  | .peer peerId => n.HasOther peerId

/-- Whether the relay lets a command of a host by: one of the parent when its link is
established and the engine does not throw on the timestamp, one of a peer always. -/
def LetsBy (command : HostCommand) : RemoteHost → Prop
  | .uplink => (∃ e ∈ n.uplink, e.state = .established) ∧
    ∀ seconds ∈ HostBridge.timestamp? command, DateTimeOffset.InRange seconds.toInt
  | .peer _ => True

instance : (origin : RemoteHost) → Decidable (n.HasOthers origin)
  | .uplink => inferInstanceAs (Decidable (n.links.peers ≠ []))
  | .peer peerId => inferInstanceAs (Decidable (n.HasOther peerId))

instance (command : HostCommand) : (origin : RemoteHost) → Decidable (n.LetsBy command origin)
  | .uplink =>
    have : Decidable (∀ seconds ∈ HostBridge.timestamp? command,
        DateTimeOffset.InRange seconds.toInt) := Option.decidableForallMem _
    inferInstanceAs (Decidable (_ ∧ _))
  | .peer _ => inferInstanceAs (Decidable True)

/-- **The topics passed on are fresh**: a step passes on no topic that is older than the one
held when it deals with it. -/
def FreshTopics : Prop :=
  ∀ origin command, n.handled label = some (origin, command) →
    (∃ host ≠ origin, command ∈ writtenTo host (n.effects label)) → ¬n.hub.IsStale command

/-- **The text of a local channel stays here**: a step writes none of it to any host. -/
def LocalText : Prop :=
  ∀ host, ∀ command ∈ writtenTo host (n.effects label), ¬n.hub.IsLocalText command

/-- A step deals with a stale topic that the relay lets by to another host. -/
def SpreadsStale : Prop :=
  ∃ p ∈ n.handled label, n.hub.IsStale p.2 ∧ n.LetsBy p.2 p.1 ∧ n.HasOthers p.1

/-- A step deals with a text of another host, for a local channel, that the relay lets by. -/
def SpreadsLocal : Prop :=
  ∃ p ∈ n.handled label, n.hub.IsLocalText p.2 ∧ n.LetsBy p.2 p.1 ∧ n.HasOthers p.1

instance : Decidable (n.SpreadsStale label) :=
  inferInstanceAs (Decidable (∃ p ∈ n.handled label, _))

instance : Decidable (n.SpreadsLocal label) :=
  inferInstanceAs (Decidable (∃ p ∈ n.handled label, _))

/-! ### What the step that deals with a command writes -/

section Deals

variable {n : Node} {label : Label}

theorem hasOthers_iff {origin : RemoteHost} :
    n.HasOthers origin ↔ ∃ host ≠ origin, n.connected host := by
  cases origin with
  | uplink =>
    constructor
    · intro hpeers
      obtain ⟨peerId, hpeer⟩ := List.exists_mem_of_ne_nil _ hpeers
      exact ⟨.peer peerId, nofun, hpeer⟩
    · rintro ⟨_ | peerId, hne, hconnected⟩
      · exact absurd rfl hne
      · exact List.ne_nil_of_mem hconnected
  | peer peerId => exact n.hasOther_iff peerId

/-- The engine of the parent takes content whose timestamp is a moment. -/
theorem onLineReceived_isOk_content {now : DateTimeOffset} {e : HostLinkEngine} {line : Text}
    (hopen : e.state = .handshaking ∨ e.state = .established) {c : HostCommand}
    (hcontent : PeerRelay.contentOf line = some c) :
    (∃ r, e.onLineReceived now line = .ok r) ↔
      ∀ seconds ∈ HostBridge.timestamp? c, DateTimeOffset.InRange seconds.toInt := by
  rw [HostLinkEngine.onLineReceived_isOk_toEvent_iff now e hopen line,
    (PeerRelay.contentOf_eq_some.mp hcontent).1, ← HostBridge.toEvent_isOk_iff]
  simp

/-- What is dealt with from the parent is the content of a line. -/
theorem uplinkLine_of_handled {c : HostCommand} (hhandled : n.handled label = some (.uplink, c)) :
    ∃ now line e, label = .uplinkLine now line ∧ n.uplink = some e ∧
      PeerRelay.contentOf line = some c := by
  cases label with
  | uplinkLine now line =>
    have hreceived : n.received (.uplinkLine now line) = some (.uplink, c) := hhandled
    obtain ⟨⟨host, text⟩, hheard, hmap⟩ := Option.bind_eq_some_iff.mp hreceived
    obtain ⟨command, hcontent, hpair⟩ := Option.map_eq_some_iff.mp hmap
    obtain rfl : command = c := congrArg Prod.snd hpair
    rw [heard] at hheard
    rcases huplink : n.uplink with _ | e
    · rw [huplink] at hheard
      cases hheard
    · rw [huplink] at hheard
      cases hheard
      exact ⟨now, line, e, rfl, rfl, hcontent⟩
  | drain now =>
    rw [handled] at hhandled
    split at hhandled
    · cases hhandled
    · cases hhandled
  | _ => cases hhandled

/-- **What the step that deals with a command writes**: the command, to every other host, if the
relay lets it by. The origin is left out, which is the whole of the loop guard. -/
theorem Orderly.writtenTo_of_deals (h : n.Orderly) {origin : RemoteHost} {c : HostCommand}
    (hhandled : n.handled label = some (origin, c)) (host : RemoteHost) :
    writtenTo host (n.effects label) =
      if host ≠ origin ∧ n.connected host ∧ n.LetsBy c origin then [c] else [] := by
  cases origin with
  | peer peerId =>
    rw [h.writtenTo_of_handled hhandled host]
    exact if_congr (and_congr_right' (and_iff_left trivial).symm) rfl rfl
  | uplink =>
    obtain ⟨now, line, e, rfl, huplink, hcontent⟩ := uplinkLine_of_handled hhandled
    have hopen := h.uplink e huplink
    have heffects : n.effects (.uplinkLine now line) =
        (HostLink.receiveLine n.links now e n.hub line).2.2 := by
      rw [effects, next, huplink]
    rw [heffects]
    rcases hread : e.onLineReceived now line with fault | ⟨engine, step⟩
    · -- the exception is on the timestamp
      rw [HostLink.effects_receiveLine_of_throws n.links hread, if_neg]
      · cases host <;> rfl
      · rintro ⟨-, -, -, hstamp⟩
        obtain ⟨r, hr⟩ := (onLineReceived_isOk_content hopen hcontent).mpr hstamp
        rw [hread] at hr
        cases hr
    · have hstamp := (onLineReceived_isOk_content hopen hcontent).mp ⟨_, hread⟩
      cases host with
      | uplink =>
        rw [if_neg fun hbad => hbad.1 rfl]
        exact HostLink.attempted_receiveLine n.links hread hcontent
      | peer peerId =>
        have hstate : engine.state = e.state := by
          rw [(HostLinkEngine.onLineReceived_content hcontent hread).1]
        refine (HostLink.enqueuedTo_receiveLine n.links hread peerId).trans ?_
        rw [hcontent, hstate]
        refine if_congr ⟨?_, ?_⟩ rfl rfl
        · rintro ⟨hestablished, hpeer, -⟩
          exact ⟨by rintro ⟨⟩, hpeer, ⟨e, huplink, hestablished⟩, hstamp⟩
        · rintro ⟨-, hpeer, ⟨e', he', hestablished⟩, -⟩
          obtain rfl : e = e' := Option.some.inj (huplink.symm.trans he')
          exact ⟨hestablished, hpeer, h.peer_ne_uplink hpeer⟩

/-- **The relay passes a command on** when it lets it by and there is another host. It turns what is
written into a condition on the state before the step. -/
theorem Orderly.passesOn_iff (h : n.Orderly) {origin : RemoteHost} {c : HostCommand}
    (hhandled : n.handled label = some (origin, c)) :
    (∃ host ≠ origin, c ∈ writtenTo host (n.effects label)) ↔
      n.LetsBy c origin ∧ n.HasOthers origin := by
  simp only [h.writtenTo_of_deals hhandled]
  constructor
  · rintro ⟨host, hne, hmem⟩
    split at hmem
    · rename_i hall
      exact ⟨hall.2.2, hasOthers_iff.mpr ⟨host, hne, hall.2.1⟩⟩
    · cases hmem
  · rintro ⟨hlets, hothers⟩
    obtain ⟨host, hne, hconnected⟩ := hasOthers_iff.mp hothers
    refine ⟨host, hne, ?_⟩
    rw [if_pos ⟨hne, hconnected, hlets⟩]
    exact List.mem_singleton_self c

/-- A step passes on a stale topic exactly when it spreads it. -/
theorem Orderly.fresh_iff_not_spreads (h : n.Orderly) :
    n.FreshTopics label ↔ ¬n.SpreadsStale label := by
  constructor
  · rintro hfresh ⟨⟨origin, c⟩, hhandled, hstale, hlets, hothers⟩
    exact hfresh origin c hhandled ((h.passesOn_iff hhandled).mpr ⟨hlets, hothers⟩) hstale
  · intro hnot origin c hhandled hpasses hstale
    obtain ⟨hlets, hothers⟩ := (h.passesOn_iff hhandled).mp hpasses
    exact hnot ⟨(origin, c), hhandled, hstale, hlets, hothers⟩

end Deals

end Node

/-! ### What else is written -/

namespace HostLink

/-- The command a call writes to a link. -/
def Effect.command? : Effect → Option HostCommand
  | .uplink command _ => some command
  | .enqueue _ command => some command
  | _ => none

/-- A command is written by some calls. -/
def Carries (effects : List Effect) (c : HostCommand) : Prop := ∃ x ∈ effects, x.command? = some c

section Carries

variable {c : HostCommand} {l m : List Effect}

theorem carries_of_mem_writtenTo {host : RemoteHost} (hmem : c ∈ writtenTo host l) :
    Carries l c := by
  cases host with
  | uplink =>
    obtain ⟨x, hx, hsent⟩ := List.mem_filterMap.mp hmem
    refine ⟨x, hx, ?_⟩
    cases x <;> first | exact hsent | cases hsent
  | peer peerId =>
    obtain ⟨x, hx, hsent⟩ := List.mem_filterMap.mp hmem
    refine ⟨x, hx, ?_⟩
    cases x with
    | enqueue id command =>
      dsimp only at hsent
      split at hsent
      · exact hsent
      · cases hsent
    | _ => cases hsent

theorem not_carries_nil : ¬Carries [] c := by
  rintro ⟨x, hx, -⟩
  cases hx

theorem Carries.of_append (hc : Carries (l ++ m) c) : Carries l c ∨ Carries m c := by
  obtain ⟨x, hx, hcommand⟩ := hc
  rcases List.mem_append.mp hx with hx | hx
  · exact Or.inl ⟨x, hx, hcommand⟩
  · exact Or.inr ⟨x, hx, hcommand⟩

theorem Carries.of_andThen {s t : Trace} (hc : Carries (s.andThen t).effects c) :
    Carries s.effects c ∨ Carries t.effects c := by
  rw [Trace.effects_andThen] at hc
  refine hc.of_append.imp_right fun hc => ?_
  split at hc
  · exact absurd hc not_carries_nil
  · exact hc

theorem Carries.mem_of_map {commands : List HostCommand} {f : HostCommand → Effect}
    (hf : ∀ d, (f d).command? = some d) (hc : Carries (commands.map f) c) : c ∈ commands := by
  obtain ⟨x, hx, hcommand⟩ := hc
  obtain ⟨d, hd, rfl⟩ := List.mem_map.mp hx
  rw [hf, Option.some.injEq] at hcommand
  exact hcommand ▸ hd

variable {links : Links} {exceptPeerId : Option Text} {now : DateTimeOffset} {h : Hub}

theorem Carries.of_fanOutToPeers {succeeds includeUplink : Bool} {command : HostCommand}
    (hc : Carries (fanOutToPeers links succeeds exceptPeerId includeUplink command).effects c) :
    c = command := by
  rw [fanOutToPeers] at hc
  rcases hc.of_andThen with hc | hc
  · split at hc
    · obtain ⟨x, hx, hcommand⟩ := hc
      obtain rfl := List.mem_singleton.mp hx
      exact (Option.some.inj hcommand).symm
    · exact absurd hc not_carries_nil
  · obtain ⟨x, hx, hcommand⟩ := hc
    obtain ⟨peer, -, rfl⟩ := List.mem_map.mp hx
    exact (Option.some.inj hcommand).symm

/-- **A dispatch writes what the actions send.** So what a dispatch can write is known from the
answer of the hub. -/
theorem Carries.of_dispatchActions {succeeds : ℕ → Bool} {actions : List ConversAction}
    (hc : Carries (dispatchActions links exceptPeerId succeeds actions).effects c) :
    ∃ a ∈ actions, HostBridge.toHostCommand a = some c := by
  induction actions generalizing succeeds with
  | nil => exact absurd hc not_carries_nil
  | cons a actions ih =>
    have hrest : ∀ {succeeds : ℕ → Bool},
        Carries (dispatchActions links exceptPeerId succeeds actions).effects c →
          ∃ b ∈ a :: actions, HostBridge.toHostCommand b = some c := fun hc =>
      (ih hc).imp fun b hb => ⟨List.mem_cons_of_mem _ hb.1, hb.2⟩
    have hhere : ∀ {command : HostCommand}, HostBridge.toHostCommand a = some command →
        c = command → ∃ b ∈ a :: actions, HostBridge.toHostCommand b = some c :=
      fun hcommand heq => ⟨a, List.mem_cons_self, heq ▸ hcommand⟩
    rw [dispatchActions.eq_def] at hc
    split at hc
    · rename_i heq
      cases heq
    · rename_i heq
      cases heq
      exact hrest hc
    · rename_i heq
      obtain ⟨rfl, rfl⟩ := List.cons.inj heq
      split at hc
      · rename_i command hcommand
        rcases hc.of_andThen with hc | hc
        · rcases hc.of_andThen with hc | hc
          · split at hc
            · obtain ⟨x, hx, hsent⟩ := hc
              obtain rfl := List.mem_singleton.mp hx
              exact hhere hcommand (Option.some.inj hsent).symm
            · exact absurd hc not_carries_nil
          · split at hc
            · exact absurd hc not_carries_nil
            · exact hhere hcommand hc.of_fanOutToPeers
        · exact hrest hc
      · rcases hc.of_andThen with hc | hc
        · obtain ⟨x, hx, hsent⟩ := hc
          obtain rfl := List.mem_singleton.mp hx
          cases hsent
        · exact hrest hc

/-- **The only text the hub sends is said on a channel that is not local.** A local channel can so
be betrayed by the relay alone. -/
theorem localFlag_of_mem_advance {e : ConversEvent} {a : ConversAction}
    (ha : a ∈ (h.advance now e).actions) (hcommand : HostBridge.toHostCommand a = some c) :
    ¬h.IsLocalText c := by
  rintro ⟨channel, hspoken, hlocal⟩
  cases a with
  | sendChannelMessage user channel' text =>
    cases hcommand
    obtain rfl : channel' = channel := Option.some.inj hspoken
    rcases he : e.isLocal with _ | _
    · rcases h.advance_of_not_isLocal now he _ ha with hdeliver | ⟨-, hpong⟩ | ⟨reason, hdrop⟩
      · cases hdeliver
      · cases hpong
      · cases hdrop
    · obtain ⟨hann, hsend⟩ := Hub.announcement_of_mem he ha rfl
      cases e with
      | localSay sessionId said =>
        obtain ⟨s, hs, hpair⟩ := Option.map_eq_some_iff.mp hsend
        cases hpair
        simp [Hub.announces, hs, hlocal] at hann
      | localJoin | localSetMode => cases hsend
      | localSwitchChannel | localPrivateMessage | localSetPersonal | localSetAway | localSetTopic
      | localInvite | localLeave =>
        obtain ⟨s, -, hpair⟩ := Option.map_eq_some_iff.mp hsend
        cases hpair
      | _ => cases hann
  | sendUser | sendPrivateMessage | sendPersonal | sendAway | sendTopic | sendInvite | sendMode
  | sendPong =>
    cases hcommand
    cases hspoken
  | _ => cases hcommand

/-- Events of the hosts make the hub say nothing. -/
theorem Carries.of_applyEvents {events : List ConversEvent}
    (hevents : ∀ e ∈ events, e.isLocal = false)
    (hc : Carries (applyEvents links exceptPeerId now h events).2.effects c) :
    c.spokenOn? = none := by
  induction events generalizing h with
  | nil => exact absurd hc not_carries_nil
  | cons e events ih =>
    rw [applyEvents] at hc
    split at hc
    · obtain ⟨x, hx, hsent⟩ := hc
      obtain rfl := List.mem_singleton.mp hx
      cases hsent
    · rcases hc.of_andThen with hc | hc
      · rcases hc.of_andThen with hc | hc
        · obtain ⟨x, hx, hsent⟩ := hc
          obtain rfl := List.mem_singleton.mp hx
          cases hsent
        · obtain ⟨a, ha, hcommand⟩ := hc.of_dispatchActions
          rcases h.advance_of_not_isLocal now (hevents e (by simp)) a ha with
            hdeliver | ⟨-, rfl⟩ | ⟨reason, rfl⟩
          · have hnot := HostBridge.isSome_toHostCommand a
            rw [hcommand, ConversAction.isSend_of_isDeliver hdeliver] at hnot
            cases hnot
          · cases hcommand
            rfl
          · cases hcommand
      · exact ih (fun e he => hevents e (List.mem_cons_of_mem _ he)) hc

/-- A local event says nothing on a local channel. -/
theorem Carries.of_drainLocalEvent {isLoggable : ConversEvent → Bool} {succeeds : ℕ → Bool}
    {e : ConversEvent}
    (hc : Carries (drainLocalEvent links isLoggable succeeds now h e).2.effects c) :
    ¬h.IsLocalText c := by
  rcases hfault : (h.advance now e).fault with _ | fault
  · rw [drainLocalEvent_of_ok links isLoggable succeeds now hfault] at hc
    rcases hc.of_andThen with hc | hc
    · obtain ⟨a, ha, hcommand⟩ := hc.of_dispatchActions
      exact localFlag_of_mem_advance ha hcommand
    · obtain ⟨x, hx, hsent⟩ := hc
      obtain ⟨p, -, rfl⟩ := Option.map_eq_some_iff.mp (Option.mem_toList.mp hx)
      cases hsent
  · rw [drainLocalEvent] at hc
    simp only [hfault] at hc
    exact absurd hc not_carries_nil

end Carries

end HostLink

namespace HostLinkEngine

/-- **An engine says nothing on a channel**: it greets, answers and pings. Whatever text of a
channel is written comes from another host, or from the hub. -/
theorem spokenOn?_of_line {now : DateTimeOffset} {e e' : HostLinkEngine} {line : Text}
    {step : EngineStep} (h : e.onLineReceived now line = .ok (e', step)) :
    ∀ c ∈ step.outboundCommands, c.spokenOn? = none := by
  -- an event for the hub comes with no answer
  have hbridge : ∀ {e₀ : HostLinkEngine} {c : HostCommand}, (HostBridge.toEvent c >>= fun event =>
      Except.ok (e₀, { EngineStep.none with hubEvents := event.toList })) = .ok (e', step) →
        ∀ c ∈ step.outboundCommands, c.spokenOn? = none := by
    intro e₀ c hok
    rw [(of_bridge hok).2.1]
    nofun
  rw [onLineReceived_eq] at h
  rcases hparsed : (HostCommandCodec.stripPrefix line).map HostCommandCodec.parseBody with _ | c
  · rw [hparsed] at h
    cases h
    nofun
  · rw [hparsed] at h
    rcases hstate : e.state with _ | _ | _
    · simp only [hstate] at h
      cases h
      nofun
    · simp only [hstate] at h
      cases c with
      | hostHandshake hostname software facilities =>
        cases h
        intro c hc
        dsimp only at hc
        split at hc
        · obtain rfl := List.mem_singleton.mp hc
          rfl
        · cases hc
      | _ => exact hbridge h
    · simp only [hstate] at h
      cases c with
      | hostHandshake hostname software facilities | hostPong time | hostLoop detail =>
        cases h
        nofun
      | hostRoute dest user ttl =>
        cases h
        intro c hc
        obtain rfl := List.mem_singleton.mp hc
        rfl
      | hostSysInfo user host =>
        cases h
        intro c hc
        rw [sysInfoReplies] at hc
        split at hc
        · rcases List.mem_cons.mp hc with rfl | hc
          · rfl
          · split at hc
            · obtain rfl := List.mem_singleton.mp hc
              rfl
            · cases hc
        · cases hc
      | _ => exact hbridge h

theorem spokenOn?_of_tick (now : DateTimeOffset) (e : HostLinkEngine) :
    (∀ c ∈ (e.onTick now).2.outboundCommands, c.spokenOn? = none) ∧
      (e.onTick now).2.hubEvents = [] := by
  simp only [onTick]
  split
  · exact ⟨by rintro _ ⟨⟩, rfl⟩
  · split
    · exact ⟨by rintro _ ⟨⟩, rfl⟩
    · split
      · exact ⟨by rintro _ ⟨⟩, rfl⟩
      · split
        · refine ⟨fun c hc => ?_, rfl⟩
          rw [List.mem_singleton.mp hc]
          rfl
        · exact ⟨by rintro _ ⟨⟩, rfl⟩

end HostLinkEngine

namespace HostLink

theorem spokenOn?_of_announceUser {user : NetworkUser} :
    ∀ c ∈ announceUser user, c.spokenOn? = none := by
  intro c hc
  rw [announceUser] at hc
  rcases List.mem_cons.mp hc with rfl | hc
  · rfl
  · rcases List.mem_append.mp hc with hc | hc
    · split at hc
      · rw [List.mem_singleton.mp hc]
        rfl
      · cases hc
    · split at hc
      · rw [List.mem_singleton.mp hc]
        rfl
      · cases hc

/-- An `EngineStep` that says nothing writes nothing said. -/
theorem Carries.of_applyStep {links : Links} {now : DateTimeOffset} {h : Hub} {step : EngineStep}
    {c : HostCommand} (hsilent : ∀ c ∈ step.outboundCommands, c.spokenOn? = none)
    (hevents : ∀ e ∈ step.hubEvents, e.isLocal = false)
    (hc : Carries (applyStep links now h step).2.effects c) : c.spokenOn? = none := by
  rw [applyStep] at hc
  rcases hc.of_andThen with hc | hc
  · exact hsilent c (hc.mem_of_map fun _ => rfl)
  · exact hc.of_applyEvents hevents

/-- **What a line of the parent has written** is its content, or nothing said. The relay passes it
on before the hub is asked. -/
theorem Carries.of_receiveLine {links : Links} {now : DateTimeOffset} {e : HostLinkEngine} {h : Hub}
    {line : Text} {c : HostCommand} (hc : Carries (receiveLine links now e h line).2.2 c) :
    c.spokenOn? = none ∨ PeerRelay.contentOf line = some c := by
  rcases hread : e.onLineReceived now line with fault | ⟨engine, step⟩
  · rw [receiveLine, hread] at hc
    exact absurd hc not_carries_nil
  · have hrelayed : Carries (relayedLine links engine line).effects c →
        PeerRelay.contentOf line = some c := by
      intro hc
      rw [relayedLine] at hc
      split at hc
      · split at hc
        · rename_i forwarded hcontent
          rw [hcontent, hc.of_fanOutToPeers]
        · exact absurd hc not_carries_nil
      · exact absurd hc not_carries_nil
    have hdone : Carries ((relayedLine links engine line).andThen
        (applyStep links now h step).2).effects c →
          c.spokenOn? = none ∨ PeerRelay.contentOf line = some c := by
      intro hc
      rcases hc.of_andThen with hc | hc
      · exact Or.inr (hrelayed hc)
      · exact Or.inl (hc.of_applyStep (HostLinkEngine.spokenOn?_of_line hread)
          (HostLinkEngine.isLocal_of_mem_hubEvents hread))
    rcases hdrop : step.dropReason with _ | reason
    · rw [receiveLine_of_keep links h hread hdrop] at hc
      rcases hc.of_andThen with hc | hc
      · exact hdone hc
      · -- our own users, which are announced when the handshake completes
        rw [Trace.effects_calls] at hc
        split at hc
        · have hannounced := hc.mem_of_map fun _ => rfl
          obtain ⟨user, -, hmem⟩ := List.mem_flatMap.mp hannounced
          exact Or.inl (spokenOn?_of_announceUser c hmem)
        · exact absurd hc not_carries_nil
    · rw [receiveLine_of_drop links h hread (hdrop ▸ rfl)] at hc
      exact hdone hc

/-- **What the loop writes on a command of a peer** is the command, or nothing said. The relay
passes it on here as well, before the hub is asked. -/
theorem Carries.of_applyPeerInbound {links : Links} {now : DateTimeOffset} {h : Hub}
    {command c : HostCommand} {originPeerId : Text}
    (hc : Carries (applyPeerInbound links now h command originPeerId).2 c) :
    c.spokenOn? = none ∨ c = command := by
  have hrelayed : Carries (relayedCommand links command originPeerId).effects c →
      c = command := by
    intro hc
    rw [relayedCommand] at hc
    split at hc
    · rename_i forwarded hforwarded
      rw [hc.of_fanOutToPeers, (PeerRelay.forwarded_eq_some.mp hforwarded).2]
    · exact absurd hc not_carries_nil
  rcases hevent : HostBridge.toEvent command with fault | event
  · rw [applyPeerInbound_of_error links h originPeerId hevent] at hc
    exact Or.inr (hrelayed hc)
  · rw [applyPeerInbound_of_ok links h originPeerId hevent] at hc
    rcases hc.of_andThen with hc | hc
    · exact Or.inr (hrelayed hc)
    · refine Or.inl (hc.of_applyEvents fun e he => ?_)
      rw [Option.mem_toList] at he
      exact (HostBridge.isLocal_of_toEvent (hevent.trans (congrArg _ he))).1

end HostLink

/-- A session that has nothing said to announce. -/
def PeerSession.IsTacit (s : PeerSession) : Prop :=
  ∀ commands, s.phase = .announcing commands → ∀ c ∈ commands, c.spokenOn? = none

namespace Node

open HostLink (writtenTo Carries not_carries_nil)

/-- **No session has anything said to announce.** -/
def Tacit (n : Node) : Prop := ∀ id s, n.sessions.find? id = some s → s.IsTacit

section Tacit

variable {n : Node} {label : Label} {c : HostCommand}

theorem spokenOn?_of_presence {h : Hub} : ∀ c ∈ presence h, c.spokenOn? = none := by
  intro c hc
  rcases List.mem_append.mp hc with hc | hc
  · obtain ⟨user, -, hmem⟩ := List.mem_flatMap.mp hc
    exact HostLink.spokenOn?_of_announceUser c hmem
  · obtain ⟨channel, -, hmem⟩ := List.mem_flatMap.mp hc
    rcases List.mem_append.mp hmem with hmem | hmem
    · split at hmem
      · rw [List.mem_singleton.mp hmem]
        rfl
      · cases hmem
    · split at hmem
      · rw [List.mem_singleton.mp hmem]
        rfl
      · cases hmem

theorem Tacit.congr {n' : Node} (h : n.Tacit) (hsessions : n'.sessions = n.sessions) : n'.Tacit :=
  fun id s hs => h id s (hsessions ▸ hs)

theorem Tacit.putSession (h : n.Tacit) {s : PeerSession} (hs : s.IsTacit) :
    (n.putSession s).Tacit := by
  intro id t ht
  rw [Node.putSession, Table.find?_put] at ht
  split at ht
  · cases ht
    exact hs
  · exact h id t ht

theorem Tacit.endSession (h : n.Tacit) (peerId : Text) : (n.endSession peerId).Tacit := by
  intro id t ht
  rw [Node.endSession, Table.find?_remove] at ht
  split at ht
  · cases ht
  · exact h id t ht

theorem Tacit.submitContent (h : n.Tacit) (peerId line : Text) :
    (n.submitContent peerId line).Tacit := by
  refine h.congr ?_
  rw [Node.submitContent]
  split
  · rfl
  · rfl

/-- A session that reads has nothing to announce. -/
theorem isTacit_of_receiving {s : PeerSession} (hphase : s.phase = .receiving) : s.IsTacit := by
  intro commands hcommands
  cases hphase.symm.trans hcommands

theorem Tacit.readLine (h : n.Tacit) {s : PeerSession} (hs : s.IsTacit) (now : DateTimeOffset)
    (line : Text) : (n.readLine now s line).1.Tacit := by
  rcases n.readLine_cases now s line with ⟨_, -, hnext⟩ | ⟨engine, step, -, -, hcases⟩
  · rw [hnext]
    exact h.endSession s.id
  · rcases hcases with ⟨-, hnext⟩ | ⟨-, -, hnext⟩ | ⟨-, -, -, hnext⟩ | ⟨-, -, -, hnext⟩
    · rw [hnext]
      exact h.endSession s.id
    · rw [hnext]
      exact h.putSession nofun
    · rw [hnext]
      have hput : (n.putSession { s with engine := engine }).Tacit := h.putSession hs
      exact hput.submitContent s.id line
    · rw [hnext]
      exact h.putSession hs

theorem Tacit.proceedSession (h : n.Tacit) {s : PeerSession} (hs : s.IsTacit) :
    (n.proceedSession s).1.Tacit := by
  rcases n.proceedSession_cases s with ⟨command, commands, hphase, hnext⟩ |
    ⟨line, lines, hphase, -, hnext⟩ | ⟨-, -, hnext⟩ | hnext
  · rw [hnext]
    refine h.putSession fun rest hrest c hc => hs _ hphase c ?_
    cases hrest
    exact List.mem_cons_of_mem _ hc
  · rw [hnext]
    have hput : (n.putSession { s with earlyContent := lines }).Tacit := h.putSession hs
    exact hput.submitContent s.id line
  · rw [hnext]
    exact h.putSession nofun
  · rw [hnext]
    exact h

/-- **A step leaves it so.** What is on the queues of a node was put there by its sessions, and says
nothing of its own. -/
theorem Tacit.step (h : n.Tacit) (label : Label) : (n.step label).Tacit := by
  rw [Node.step]
  cases label with
  | submit event => exact h.congr rfl
  | drain now =>
    rw [Node.next, Node.drain]
    rcases n.queue with _ | ⟨_ | peerId | _, queue⟩
    · exact h
    · exact h.congr rfl
    · dsimp only
      have hleft : ({ n with queue := queue } : Node).Tacit := h.congr rfl
      split
      · split
        · -- the picture that a session is about to send is the only thing that could break it
          refine hleft.putSession fun commands hcommands c hc => ?_
          cases hcommands
          exact spokenOn?_of_presence c hc
        · exact hleft
      · exact hleft
    · exact h.congr rfl
  | connect now =>
    rw [Node.next]
    rcases n.uplink with _ | engine
    · exact h.congr rfl
    · exact h
  | uplinkLine now line =>
    rw [Node.next]
    rcases n.uplink with _ | engine
    · exact h
    · exact h.congr rfl
  | uplinkTick now =>
    rw [Node.next]
    rcases n.uplink with _ | engine
    · exact h
    · exact h.congr rfl
  | uplinkLoss => exact h.congr rfl
  | accept now lines =>
    have hput : (n.putSession ⟨peerIdOf (n.nextPeer + 1),
        ((HostLinkEngine.new n.options true).onAccepted now).1, lines, false, [],
          .receiving⟩).Tacit := h.putSession (by rintro _ ⟨⟩)
    exact hput.congr rfl
  | arrive peerId line =>
    rw [Node.next]
    rcases hs : n.sessions.find? peerId with _ | s
    · exact h
    · exact h.putSession (h peerId s hs)
  | read now peerId =>
    rw [Node.next]
    rcases hs : n.sessions.find? peerId with _ | s
    · exact h
    · dsimp only
      split
      · exact h.readLine (isTacit_of_receiving ‹_›) now _
      · exact h
  | proceed peerId =>
    rw [Node.next]
    rcases hs : n.sessions.find? peerId with _ | s
    · exact h
    · exact h.proceedSession (h peerId s hs)
  | peerTick now peerId =>
    rw [Node.next]
    rcases hs : n.sessions.find? peerId with _ | s
    · exact h
    · dsimp only
      split
      · split
        · exact h.endSession peerId
        · exact h.putSession (h peerId s hs)
      · exact h
  | peerLoss peerId =>
    rw [Node.next]
    rcases hs : n.sessions.find? peerId with _ | s
    · exact h
    · dsimp only
      split
      · exact h.endSession peerId
      · exact h

theorem tacit_new (options : HostLinkOptions) (hub : Hub) : (Node.new options hub).Tacit :=
  fun _ _ hs => by cases hs

/-- What is not said is no text of a channel. -/
theorem not_isLocalText {h : Hub} (hsilent : c.spokenOn? = none) : ¬h.IsLocalText c := by
  rintro ⟨channel, hspoken, -⟩
  rw [hsilent] at hspoken
  cases hspoken

/-- What a session sends its peer says nothing. -/
theorem spokenOn?_of_applyPeerStep {peerId : Text} {step : EngineStep}
    (hsilent : ∀ c ∈ step.outboundCommands, c.spokenOn? = none)
    (hc : Carries (applyPeerStep peerId step) c) : c.spokenOn? = none := by
  rw [applyPeerStep] at hc
  rcases List.mem_append.mp (hc.mem_of_map fun _ => rfl) with hmem | hmem
  · exact hsilent c hmem
  · obtain ⟨event, -, rfl⟩ := List.mem_map.mp hmem
    rfl

/-- **Whatever a node writes** is the command it deals with, or no text of a local channel. So a
text of a local channel that gets out was dealt with in that step. -/
theorem Tacit.carried (h : n.Tacit) (hc : Carries (n.effects label) c) :
    ¬n.hub.IsLocalText c ∨ ∃ origin, n.handled label = some (origin, c) := by
  rw [effects] at hc
  cases label with
  | drain now =>
    rw [Node.next, Node.drain] at hc
    rcases hqueue : n.queue with _ | ⟨event | peerId | ⟨command, originPeerId⟩, queue⟩
    · rw [hqueue] at hc
      exact absurd hc not_carries_nil
    · -- an event of ours: no text of a local channel is sent with it
      rw [hqueue] at hc
      exact Or.inl hc.of_drainLocalEvent
    · rw [hqueue] at hc
      dsimp only at hc
      split at hc
      · split at hc
        · exact absurd hc not_carries_nil
        · exact absurd hc not_carries_nil
      · exact absurd hc not_carries_nil
    · rw [hqueue] at hc
      -- the copies of the command that is dealt with, or calls that say no text
      rcases hc.of_applyPeerInbound with hsilent | rfl
      · exact Or.inl (not_isLocalText hsilent)
      · exact Or.inr ⟨.peer originPeerId, by rw [handled, hqueue]⟩
  | connect now =>
    rw [Node.next] at hc
    rcases huplink : n.uplink with _ | engine
    · rw [huplink] at hc
      refine Or.inl (not_isLocalText (hc.of_applyStep (fun d hd => ?_)
        fun e he => absurd he List.not_mem_nil))
      rw [List.mem_singleton.mp hd]
      rfl
    · rw [huplink] at hc
      exact absurd hc not_carries_nil
  | uplinkLine now line =>
    rw [Node.next] at hc
    rcases huplink : n.uplink with _ | engine
    · rw [huplink] at hc
      exact absurd hc not_carries_nil
    · rw [huplink] at hc
      -- the uplink is dealt with at once, and not through the queue
      rcases hc.of_receiveLine with hsilent | hcontent
      · exact Or.inl (not_isLocalText hsilent)
      · refine Or.inr ⟨.uplink, ?_⟩
        show n.received _ = _
        rw [received, heard, huplink]
        exact congrArg (Option.map _) hcontent
  | uplinkTick now =>
    rw [Node.next] at hc
    rcases huplink : n.uplink with _ | engine
    · rw [huplink] at hc
      exact absurd hc not_carries_nil
    · rw [huplink] at hc
      obtain ⟨hsilent, hevents⟩ := HostLinkEngine.spokenOn?_of_tick now engine
      exact Or.inl (not_isLocalText (hc.of_applyStep hsilent (by rw [hevents]; rintro _ ⟨⟩)))
  | accept now lines =>
    rw [Node.next] at hc
    refine Or.inl (not_isLocalText (spokenOn?_of_applyPeerStep (fun d hd => ?_) hc))
    exact absurd hd List.not_mem_nil
  | read now peerId =>
    rw [Node.next] at hc
    rcases hs : n.sessions.find? peerId with _ | s
    · rw [hs] at hc
      exact absurd hc not_carries_nil
    · rw [hs] at hc
      dsimp only at hc
      split at hc
      · rename_i line lines hphase hinbox
        rcases n.readLine_cases now { s with inbox := lines } line with
          ⟨_, -, hnext⟩ | ⟨engine, step, hread, hnext, -⟩
        · rw [hnext] at hc
          exact absurd hc not_carries_nil
        · rw [hnext] at hc
          exact Or.inl (not_isLocalText
            (spokenOn?_of_applyPeerStep (HostLinkEngine.spokenOn?_of_line hread) hc))
      · exact absurd hc not_carries_nil
  | proceed peerId =>
    rw [Node.next] at hc
    rcases hs : n.sessions.find? peerId with _ | s
    · rw [hs] at hc
      exact absurd hc not_carries_nil
    · rw [hs] at hc
      dsimp only at hc
      rcases n.proceedSession_cases s with ⟨command, commands, hphase, hnext⟩ |
        ⟨line, lines, -, -, hnext⟩ | ⟨-, -, hnext⟩ | hnext
      · -- what is announced is a picture, and a picture has no text
        rw [hnext] at hc
        obtain ⟨x, hx, hcommand⟩ := hc
        obtain rfl := List.mem_singleton.mp hx
        obtain rfl : command = c := Option.some.inj hcommand
        exact Or.inl (not_isLocalText (h peerId s hs _ hphase command List.mem_cons_self))
      · rw [hnext] at hc
        exact absurd hc not_carries_nil
      · rw [hnext] at hc
        exact absurd hc not_carries_nil
      · rw [hnext] at hc
        exact absurd hc not_carries_nil
  | peerTick now peerId =>
    rw [Node.next] at hc
    rcases hs : n.sessions.find? peerId with _ | s
    · rw [hs] at hc
      exact absurd hc not_carries_nil
    · rw [hs] at hc
      have hsilent := (HostLinkEngine.spokenOn?_of_tick now s.engine).1
      dsimp only at hc
      split at hc
      · split at hc
        · exact Or.inl (not_isLocalText (spokenOn?_of_applyPeerStep hsilent hc))
        · exact Or.inl (not_isLocalText (spokenOn?_of_applyPeerStep hsilent hc))
      · exact absurd hc not_carries_nil
  | arrive peerId line =>
    rw [Node.next] at hc
    split at hc
    · exact absurd hc not_carries_nil
    · exact absurd hc not_carries_nil
  | peerLoss peerId =>
    rw [Node.next] at hc
    repeat' split at hc
    all_goals exact absurd hc not_carries_nil
  | submit | uplinkLoss => exact absurd hc not_carries_nil

/-- A step lets no text of a local channel out exactly when it spreads none. -/
theorem Orderly.local_iff_not_spreads (h : n.Orderly) (htacit : n.Tacit) :
    n.LocalText label ↔ ¬n.SpreadsLocal label := by
  constructor
  · rintro hlocal ⟨⟨origin, c⟩, hhandled, htext, hlets, hothers⟩
    obtain ⟨host, -, hmem⟩ := (h.passesOn_iff hhandled).mpr ⟨hlets, hothers⟩
    exact hlocal host c hmem htext
  · intro hnot host c hmem htext
    rcases htacit.carried (HostLink.carries_of_mem_writtenTo hmem) with hother | ⟨origin, hhandled⟩
    · exact hother htext
    · have hwritten := hmem
      rw [h.writtenTo_of_deals hhandled] at hwritten
      split at hwritten
      · rename_i hall
        exact hnot ⟨(origin, c), hhandled, htext, hall.2.2,
          hasOthers_iff.mpr ⟨host, hall.1, hall.2.1⟩⟩
      · cases hwritten

end Tacit

/-! ### Whole runs -/

section Runs

variable (options : HostLinkOptions) (hub : Hub) (labels : List Label)

/-- **No stale topic is passed on** in a run exactly when no step of it deals with one that the
relay lets by to another host. The hub refuses such a topic, but it is on its way by then. -/
theorem freshTopics_iff :
    (∀ p ∈ Run.trace step (Node.new options hub) labels, FreshTopics p.1 p.2) ↔
      ∀ p ∈ Run.trace step (Node.new options hub) labels, ¬SpreadsStale p.1 p.2 := by
  have horderly := (Run.invariant (orderly_new options hub) labels fun p _ h => h.step p.2).1
  exact forall₂_congr fun p hp => (horderly p hp).fresh_iff_not_spreads

/-- **No text of a local channel leaves the node** in a run exactly when no step of it deals with
one of another host that the relay lets by. What is said here on such a channel stays here in every
run. -/
theorem localText_iff :
    (∀ p ∈ Run.trace step (Node.new options hub) labels, LocalText p.1 p.2) ↔
      ∀ p ∈ Run.trace step (Node.new options hub) labels, ¬SpreadsLocal p.1 p.2 := by
  have horderly := (Run.invariant (orderly_new options hub) labels fun p _ h => h.step p.2).1
  have htacit := (Run.invariant (tacit_new options hub) labels fun p _ h => h.step p.2).1
  exact forall₂_congr fun p hp => (horderly p hp).local_iff_not_spreads (htacit p hp)

/-- A parent that has greeted, and a peer that sends a line. -/
def exampleRelay (told line : Text) : List Label :=
  let now := HostLinkEngine.defaultTime
  [.connect now, .uplinkLine now "/..HOST PARENT pdnconv1 amp".toList, .uplinkLine now told,
    .accept now ["/..HOST GB7XYZ pdnconv1 amp".toList, line], .read now (peerIdOf 1), .drain now]

/-- The session of the peer goes through its announcement, and the line reaches the loop. -/
def exampleRelayed (k : ℕ) (told line : Text) : List Label :=
  let now := HostLinkEngine.defaultTime
  exampleRelay told line ++ List.replicate k (.proceed (peerIdOf 1)) ++
    [.read now (peerIdOf 1), .drain now]

/-- A topic of 2001 is held, and one of 1998 is passed to the parent. -/
theorem not_freshTopics_exampleRelayed :
    ¬∀ p ∈ Run.trace step exampleHost (exampleRelayed 2
      "/..TOPI gb7abc PARENT 1000000000 42 new".toList
      "/..TOPI gb7xyz GB7XYZ 900000000 42 old".toList), FreshTopics p.1 p.2 := by
  intro hfresh
  have hspreads : ∃ p ∈ Run.trace step exampleHost (exampleRelayed 2
      "/..TOPI gb7abc PARENT 1000000000 42 new".toList
      "/..TOPI gb7xyz GB7XYZ 900000000 42 old".toList), SpreadsStale p.1 p.2 := by
    decide +kernel
  obtain ⟨p, hp, hspreads⟩ := hspreads
  have horderly := (Run.invariant (orderly_new _ _) _ fun p _ h => h.step p.2).1 p hp
  exact horderly.fresh_iff_not_spreads.mp (hfresh p hp) hspreads

/-- Channel 7 is local, and a text for it is passed to the parent. -/
theorem not_localText_exampleRelayed :
    ¬∀ p ∈ Run.trace step exampleHost (exampleRelayed 2 "/..MODE 7 +l".toList
      "/..CMSG gb7xyz 7 hello".toList), LocalText p.1 p.2 := by
  intro hlocal
  have hspreads : ∃ p ∈ Run.trace step exampleHost (exampleRelayed 2 "/..MODE 7 +l".toList
      "/..CMSG gb7xyz 7 hello".toList), SpreadsLocal p.1 p.2 := by
    decide +kernel
  obtain ⟨p, hp, hspreads⟩ := hspreads
  have horderly := (Run.invariant (orderly_new _ _) _ fun p _ h => h.step p.2).1 p hp
  have htacit := (Run.invariant (tacit_new _ _) _ fun p _ h => h.step p.2).1 p hp
  exact (horderly.local_iff_not_spreads htacit).mp (hlocal p hp) hspreads

end Runs

end Node

end Convers
