import Convers.Host.Announce

/-!
# Established links

A node whose links are established and stay so: its uplink, if it has one, is through the
handshake, and every session of a peer is registered and reads (`Convers.Node.Up`). The steps are
those that take no link down (`Convers.Node.Mild`), and what goes over a link is read at the other
end as commands that it passes on as they are (`Convers.HostCommand.Intact`).

Such a step keeps the node so (`Convers.Node.Up.step`). It writes to each host what the node
says, or what it deals with from another host, and besides nothing but pings and pongs
(`Convers.Node.Up.heardBy`); and what arrives from a host is dealt with in order
(`Convers.Node.Up.conserve`).
-/

namespace Convers

open HostCommandCodec

namespace HostCommand

/-- The lines the other end of a link reads for a command. -/
def onWire (c : HostCommand) : List Text := (splitLines (frameLine lf (format c))).1

/-- The commands of the network on these lines. -/
def heardAs (c : HostCommand) : List HostCommand := c.onWire.filterMap PeerRelay.contentOf

/-- A ping or a pong. -/
def Keepalive (c : HostCommand) : Prop := c = .hostPing ∨ ∃ time, c = .hostPong time

/-- A command that is read as it is and understood, and is no other command of a single link than
a ping or a pong. -/
structure Stable (c : HostCommand) : Prop where
  arrives : ∃ line, c.onWire = [line] ∧ (stripPrefix line).map parseBody = some c
  understood : ∃ event, HostBridge.toEvent c = .ok event
  ordinary : PeerRelay.isLinkLocal c = true → c.Keepalive

/-- A line with a stable command, or with none. -/
def SoundLine (line : Text) : Prop := ∀ c, (stripPrefix line).map parseBody = some c → c.Stable

/-- A command whose lines are sound. -/
def Intact (c : HostCommand) : Prop := ∀ line ∈ c.onWire, SoundLine line

/-- A well-formed command with nothing to fill in is read as it is. -/
theorem arrives_of_wellFormed {c : HostCommand} (h : c.WellFormed) (hsame : c.received = c) :
    ∃ line, c.onWire = [line] ∧ (stripPrefix line).map parseBody = some c := by
  obtain ⟨line, hsplit, hparse⟩ := parse_format c h
  refine ⟨line, by rw [onWire, hsplit], ?_⟩
  rw [parse, hsame] at hparse
  rcases hbody : stripPrefix line with _ | body
  · rw [hbody] at hparse
    cases hparse
  · rw [hbody] at hparse
    exact congrArg some (Except.ok.inj hparse)

variable {c : HostCommand} {line : Text}

theorem Keepalive.isLinkLocal (h : c.Keepalive) : PeerRelay.isLinkLocal c = true := by
  obtain rfl | ⟨time, rfl⟩ := h
  · rfl
  · rfl

theorem Keepalive.stable (h : c.Keepalive) : c.Stable := by
  obtain rfl | ⟨time, rfl⟩ := h
  · exact ⟨arrives_of_wellFormed trivial rfl, ⟨_, rfl⟩, fun _ => Or.inl rfl⟩
  · exact ⟨arrives_of_wellFormed trivial rfl, ⟨_, rfl⟩, fun _ => Or.inr ⟨time, rfl⟩⟩

theorem Stable.intact (h : c.Stable) : c.Intact := by
  obtain ⟨line, hwire, hparsed⟩ := h.arrives
  intro line' hline' c' hc'
  rw [hwire, List.mem_singleton] at hline'
  subst hline'
  exact Option.some.inj (hparsed.symm.trans hc') ▸ h

/-- A stable command of the network is heard as it is. -/
theorem Stable.heardAs (h : c.Stable) :
    c.heardAs = if PeerRelay.isLinkLocal c = true then [] else [c] := by
  obtain ⟨line, hwire, hparsed⟩ := h.arrives
  have hcontent : PeerRelay.contentOf line = PeerRelay.forwarded c := by
    rw [PeerRelay.contentOf, tryParse_eq, hparsed]
  rw [HostCommand.heardAs, hwire, List.filterMap_cons, List.filterMap_nil, hcontent]
  by_cases hlocal : PeerRelay.isLinkLocal c = true
  · rw [if_pos hlocal, PeerRelay.forwarded, if_pos hlocal]
  · rw [if_neg hlocal, PeerRelay.forwarded, if_neg hlocal]

/-- The command on a sound line is heard as it is. -/
theorem SoundLine.stable (h : SoundLine line) (hc : PeerRelay.contentOf line = some c) :
    c.Stable ∧ PeerRelay.isLinkLocal c = false := by
  obtain ⟨hparsed, hlocal⟩ := PeerRelay.contentOf_eq_some.mp hc
  exact ⟨h c hparsed, hlocal⟩

/-- The timestamp of a sound line is a moment, if it has one. -/
theorem SoundLine.stamped (h : SoundLine line) : Node.Stamped line :=
  (HostLinkEngine.toEvent_isOk_timestampField_iff line).mp fun c hc => (h c hc).understood

/-! ### Deciding it -/

/-- Whether a command keeps a link alive. -/
def isKeepalive : HostCommand → Bool
  | .hostPing | .hostPong _ => true
  | _ => false

theorem isKeepalive_iff (c : HostCommand) : c.isKeepalive = true ↔ c.Keepalive := by
  cases c with
  | hostPing => exact ⟨fun _ => Or.inl rfl, fun _ => rfl⟩
  | hostPong time => exact ⟨fun _ => Or.inr ⟨time, rfl⟩, fun _ => rfl⟩
  | _ =>
    refine ⟨by rintro ⟨⟩, ?_⟩
    rintro (h | ⟨time, h⟩)
    · cases h
    · cases h

instance (c : HostCommand) : Decidable c.Keepalive := decidable_of_iff _ (isKeepalive_iff c)

/-- A command is read as it is if it makes one line, which is read as the command. -/
theorem arrives_iff (c : HostCommand) :
    (∃ line, c.onWire = [line] ∧ (stripPrefix line).map parseBody = some c) ↔
      c.onWire.map (fun line => (stripPrefix line).map parseBody) = [some c] := by
  constructor
  · rintro ⟨line, hwire, hparsed⟩
    rw [hwire, List.map_singleton, hparsed]
  · intro h
    obtain ⟨line, hwire, hparsed⟩ := List.map_eq_singleton_iff.mp h
    exact ⟨line, hwire, hparsed⟩

theorem stable_iff (c : HostCommand) :
    c.Stable ↔ c.onWire.map (fun line => (stripPrefix line).map parseBody) = [some c] ∧
      (HostBridge.toEvent c).toOption.isSome = true ∧
        (PeerRelay.isLinkLocal c = true → c.Keepalive) := by
  have hevent : (∃ event, HostBridge.toEvent c = .ok event) ↔
      (HostBridge.toEvent c).toOption.isSome = true := by
    rcases HostBridge.toEvent c with fault | event
    · exact ⟨by rintro ⟨_, ⟨⟩⟩, by rintro ⟨⟩⟩
    · exact ⟨fun _ => rfl, fun _ => ⟨event, rfl⟩⟩
  rw [← arrives_iff, ← hevent]
  exact ⟨fun h => ⟨h.arrives, h.understood, h.ordinary⟩, fun ⟨h1, h2, h3⟩ => ⟨h1, h2, h3⟩⟩

instance (c : HostCommand) : Decidable c.Stable := decidable_of_iff _ (stable_iff c).symm

instance (line : Text) : Decidable (SoundLine line) :=
  inferInstanceAs (Decidable (∀ c ∈ (stripPrefix line).map parseBody, c.Stable))

instance (c : HostCommand) : Decidable c.Intact :=
  inferInstanceAs (Decidable (∀ line ∈ c.onWire, SoundLine line))

end HostCommand

open HostCommand

/-! ### What an established link does with a sound line -/

namespace HostLinkEngine

variable {e : HostLinkEngine} {line : Text}

/-- **A sound line takes no established link down**, and its answer is a pong at most. In the runs
of a network every line that arrives is of that kind. -/
theorem onLineReceived_of_sound (now : DateTimeOffset) (hstate : e.state = .established)
    (hline : SoundLine line) :
    ∃ e' step, e.onLineReceived now line = .ok (e', step) ∧ e'.state = .established ∧
      step.dropReason = none ∧ step.handshakeCompleted = false ∧ step.outboundCommands = [] := by
  rcases hparsed : (stripPrefix line).map parseBody with _ | c
  · refine ⟨{ e with lastInbound := now }, EngineStep.none, ?_, hstate, rfl, rfl, rfl⟩
    rw [onLineReceived_eq, hparsed]
  · have hread : e.onLineReceived now line =
        onLineWhileEstablished now { e with lastInbound := now } c := by
      rw [onLineReceived_eq, hparsed, hstate]
    have hstable := hline c hparsed
    obtain ⟨event, hevent⟩ := hstable.understood
    rw [hread]
    by_cases hlocal : PeerRelay.isLinkLocal c = true
    · obtain rfl | ⟨time, rfl⟩ := hstable.ordinary hlocal
      · exact ⟨_, _, rfl, hstate, rfl, rfl, rfl⟩
      · exact ⟨_, _, rfl, hstate, rfl, rfl, rfl⟩
    · refine ⟨{ e with lastInbound := now }, { EngineStep.none with hubEvents := event.toList }, ?_,
        hstate, rfl, rfl, rfl⟩
      cases c with
      | hostHandshake | hostPing | hostPong | hostLoop | hostRoute | hostSysInfo =>
        exact absurd rfl hlocal
      | _ =>
        rw [onLineWhileEstablished, hevent]
        · rfl
        all_goals (intros; rename_i h; cases h)

end HostLinkEngine

namespace HostLink

variable {links : Links} {now : DateTimeOffset} {hub : Hub}

/-- Each command for the uplink is that of a send. -/
theorem mem_attempted_dispatchActions {exceptPeerId : Option Text} {succeeds : ℕ → Bool}
    {actions : List ConversAction} {c : HostCommand}
    (hc : c ∈ attempted (dispatchActions links exceptPeerId succeeds actions).effects) :
    ∃ action ∈ actions, HostBridge.toHostCommand action = some c := by
  induction actions generalizing succeeds with
  | nil => cases hc
  | cons action actions ih =>
    have hrest {succeeds : ℕ → Bool}
        (h : c ∈ attempted (dispatchActions links exceptPeerId succeeds actions).effects) :
        ∃ a ∈ action :: actions, HostBridge.toHostCommand a = some c := by
      obtain ⟨a, ha, hcommand⟩ := ih h
      exact ⟨a, List.mem_cons_of_mem _ ha, hcommand⟩
    have hfirst {s t : Trace} (h : c ∈ attempted (s.andThen t).effects) :
        c ∈ attempted s.effects ∨ c ∈ attempted t.effects := by
      rw [Trace.effects_andThen, attempted_append, List.mem_append] at h
      refine h.imp_right fun h => ?_
      split at h
      · cases h
      · exact h
    rw [dispatchActions.eq_def] at hc
    split at hc
    · rename_i heq
      cases heq
    · rename_i heq
      cases heq
      exact hrest hc
    · rename_i heq
      cases heq
      split at hc
      · rename_i command hcommand
        dsimp only at hc
        rcases hfirst hc with hc | hc
        · refine ⟨action, List.mem_cons_self, hcommand.trans (congrArg some ?_)⟩
          rcases hfirst hc with hc | hc
          · split at hc
            · exact (List.mem_singleton.mp hc).symm
            · cases hc
          · split at hc
            · cases hc
            · rw [attempted_fanOutToPeers, Bool.false_and, if_neg Bool.false_ne_true] at hc
              cases hc
        · exact hrest hc
      · rcases hfirst hc with hc | hc
        · cases hc
        · exact hrest hc

/-- Events from the hosts are answered with pongs at most. -/
theorem keepalive_applyEvents {exceptPeerId : Option Text} {events : List ConversEvent}
    (hevents : ∀ event ∈ events, event.isLocal = false) {c : HostCommand}
    (hc : c ∈ attempted (applyEvents links exceptPeerId now hub events).2.effects) :
    c.Keepalive := by
  induction events generalizing hub with
  | nil => cases hc
  | cons event events ih =>
    have hrest {h : Hub}
        (h : c ∈ attempted (applyEvents links exceptPeerId now h events).2.effects) :
        c.Keepalive := ih (fun e he => hevents e (List.mem_cons_of_mem _ he)) h
    rw [applyEvents] at hc
    split at hc
    · cases hc
    · rw [Trace.effects_andThen, attempted_append, List.mem_append, Trace.calls_andThen] at hc
      rcases hc with hc | hc
      · obtain ⟨action, hmem, hcommand⟩ := mem_attempted_dispatchActions hc
        rcases hub.advance_of_not_isLocal now (hevents event List.mem_cons_self) action hmem with
          hdeliver | ⟨-, rfl⟩ | ⟨reason, rfl⟩
        · cases action <;> first | cases hdeliver; done | cases hcommand
        · exact Or.inr ⟨_, (Option.some.inj hcommand).symm⟩
        · cases hcommand
      · split at hc
        · cases hc
        · exact hrest hc

end HostLink

namespace Node

open HostLink (writtenTo attempted enqueuedTo)

/-! ### Nodes whose links are up -/

section Up

variable (n : Node)

/-- The command for the network that the loop answers with to the event it takes. -/
def saidBy : Label → List HostCommand
  | .drain now =>
    match n.queue with
    | .event event :: _ => ((Hub.said now n.hub event).bind HostBridge.toHostCommand).toList
    | _ => []
  | _ => []

/-- **The links of the node are up**, and what waits at it is sound. -/
structure Up : Prop where
  orderly : Orderly n
  uplink : ∀ e, n.uplink = some e → e.state = .established
  sessions : ∀ id s, n.sessions.find? id = some s →
    s.registered = true ∧ s.phase = .receiving ∧ ∀ line ∈ s.inbox, SoundLine line
  events : ∀ event, HubWork.event event ∈ n.queue → event.isLocal = true
  commands : ∀ c id, HubWork.peer c id ∈ n.queue → c.Stable ∧ n.connected (.peer id)

/-- **The steps that take no link down.** -/
def Mild : Label → Prop
  | .submit event => event.isLocal = true
  | .drain now => ∀ c ∈ n.saidBy (.drain now), c.Intact
  | .uplinkLine _ line | .arrive _ line => SoundLine line
  | .uplinkTick now => ∀ e ∈ n.uplink, (e.onTick now).2.dropReason = none
  | .peerTick now peerId => ∀ s ∈ n.sessions.find? peerId, (s.engine.onTick now).2.dropReason = none
  | .read .. | .proceed _ => True
  | .connect _ | .uplinkLoss | .accept .. | .peerLoss _ => False

end Up

instance (n : Node) : (label : Label) → Decidable (n.Mild label)
  | .submit event => inferInstanceAs (Decidable (event.isLocal = true))
  | .drain now => inferInstanceAs (Decidable (∀ c ∈ n.saidBy (.drain now), c.Intact))
  | .uplinkLine _ line | .arrive _ line => inferInstanceAs (Decidable (SoundLine line))
  | .uplinkTick now =>
    inferInstanceAs (Decidable (∀ e ∈ n.uplink, (e.onTick now).2.dropReason = none))
  | .peerTick now peerId => inferInstanceAs (Decidable
    (∀ s ∈ n.sessions.find? peerId, (s.engine.onTick now).2.dropReason = none))
  | .read .. | .proceed _ => inferInstanceAs (Decidable True)
  | .connect _ | .uplinkLoss | .accept .. | .peerLoss _ => inferInstanceAs (Decidable False)

variable {n : Node} {label : Label}

theorem Up.connected_peer_iff (h : n.Up) (peerId : Text) :
    n.connected (.peer peerId) ↔ ∃ s, n.sessions.find? peerId = some s := by
  refine mem_peers.trans ⟨fun ⟨s, hs, _⟩ => ⟨s, hs⟩, fun ⟨s, hs⟩ => ⟨s, hs, ?_⟩⟩
  exact (h.sessions peerId s hs).1

/-- The hosts of a node whose links are up are those of another one with the same links. -/
theorem Up.of_queue {n' : Node} (h : n.Up) (horderly : Orderly n')
    (huplink : ∀ e, n'.uplink = some e → e.state = .established)
    (hsessions : n'.sessions = n.sessions)
    (hqueue : ∀ work ∈ n'.queue, work ∈ n.queue ∨ ∃ event, work = .event event ∧
      event.isLocal = true) : n'.Up := by
  refine ⟨horderly, huplink, hsessions ▸ h.sessions, fun event hmem => ?_, fun c id hmem => ?_⟩
  · rcases hqueue _ hmem with hmem | ⟨event', heq, hlocal⟩
    · exact h.events event hmem
    · cases heq
      exact hlocal
  · rcases hqueue _ hmem with hmem | ⟨event', heq, -⟩
    · obtain ⟨hstable, hconnected⟩ := h.commands c id hmem
      refine ⟨hstable, mem_peers.mpr ?_⟩
      rw [hsessions]
      exact mem_peers.mp hconnected
    · cases heq

/-- A session that goes on reading. -/
theorem Up.putSession (h : n.Up) {old s : PeerSession} (hold : n.sessions.find? s.id = some old)
    (horderly : Orderly (n.putSession s)) (hregistered : s.registered = true)
    (hphase : s.phase = .receiving) (hinbox : ∀ line ∈ s.inbox, SoundLine line) :
    (n.putSession s).Up ∧ ∀ host, (n.putSession s).connected host ↔ n.connected host := by
  have hhosts (host : RemoteHost) : (n.putSession s).connected host ↔ n.connected host := by
    cases host with
    | uplink => exact Iff.rfl
    | peer id =>
      refine mem_peers.trans (Iff.trans ?_ (h.connected_peer_iff id).symm)
      rw [find?_putSession]
      by_cases hid : id = s.id
      · rw [if_pos hid, hid]
        exact ⟨fun _ => ⟨old, hold⟩, fun _ => ⟨s, rfl, hregistered⟩⟩
      · rw [if_neg hid]
        exact ⟨fun ⟨t, ht, _⟩ => ⟨t, ht⟩, fun ⟨t, ht⟩ => ⟨t, ht, (h.sessions id t ht).1⟩⟩
  refine ⟨⟨horderly, h.uplink, fun id t ht => ?_, h.events, fun c id hmem => ?_⟩, hhosts⟩
  · rw [find?_putSession] at ht
    split at ht
    · cases ht
      exact ⟨hregistered, hphase, hinbox⟩
    · exact h.sessions id t ht
  · obtain ⟨hstable, hconnected⟩ := h.commands c id hmem
    exact ⟨hstable, (hhosts _).mpr hconnected⟩

/-- A sound line of a connected peer is submitted. -/
theorem Up.submitContent (h : n.Up) {id line : Text} (hline : SoundLine line)
    (hid : n.connected (.peer id)) (horderly : Orderly (n.submitContent id line)) :
    (n.submitContent id line).Up ∧
      ∀ host, (n.submitContent id line).connected host ↔ n.connected host := by
  rw [Node.submitContent] at horderly ⊢
  rcases hcontent : PeerRelay.contentOf line with _ | c
  · exact ⟨h, fun host => Iff.rfl⟩
  · rw [hcontent] at horderly
    have hhosts (host : RemoteHost) :
        (n.enqueueWork (.peer c id)).connected host ↔ n.connected host := by
      cases host with
      | uplink => exact Iff.rfl
      | peer id => exact Iff.rfl
    refine ⟨⟨horderly, h.uplink, h.sessions, fun event hmem => ?_, fun c' id' hmem => ?_⟩, hhosts⟩
    · rcases List.mem_append.mp hmem with hmem | hmem
      · exact h.events event hmem
      · cases List.mem_singleton.mp hmem
    · rcases List.mem_append.mp hmem with hmem | hmem
      · exact h.commands c' id' hmem
      · cases List.mem_singleton.mp hmem
        exact ⟨(hline.stable hcontent).1, hid⟩

/-- A session takes the first line of its inbox: it neither fails on it nor ends. -/
theorem Up.takes (h : n.Up) {session : PeerSession} {line : Text} {lines : List Text}
    (hfind : n.sessions.find? session.id = some session) (hinbox : session.inbox = line :: lines)
    (now : DateTimeOffset) : ∃ engine step,
      session.engine.onLineReceived now line = .ok (engine, step) ∧ step.dropReason = none ∧
        step.handshakeCompleted = false ∧ step.outboundCommands = [] := by
  obtain ⟨hregistered, -, hsound⟩ := h.sessions _ _ hfind
  obtain ⟨engine, step, hread, -, hstep⟩ := HostLinkEngine.onLineReceived_of_sound now
    ((h.orderly.sessions _ _ hfind).registered hregistered)
    (hsound line (hinbox ▸ List.mem_cons_self))
  exact ⟨engine, step, hread, hstep⟩

/-- **Every mild step keeps the links up**, and the hosts the same. The topology of a network so
stays what it is at the start. -/
theorem Up.step (h : n.Up) (hmild : n.Mild label) :
    (n.step label).Up ∧ ∀ host, (n.step label).connected host ↔ n.connected host := by
  have horderly := h.orderly.step label
  obtain ⟨n', calls, hnext, hc⟩ := n.exists_change label
  rw [Node.step, hnext] at horderly ⊢
  -- what is left when the loop has taken an item
  have hpopped {n' : Node} {work : HubWork} {queue : List HubWork}
      (hqueue : n.queue = work :: queue) (horderly : Orderly n') (huplink : n'.uplink = n.uplink)
      (hsessions : n'.sessions = n.sessions) (hqueue' : n'.queue = queue) :
      n'.Up ∧ ∀ host, n'.connected host ↔ n.connected host := by
    refine ⟨h.of_queue horderly (huplink ▸ h.uplink) hsessions fun work' hwork' => Or.inl ?_,
      fun host => ?_⟩
    · rw [hqueue]
      exact List.mem_cons_of_mem _ (hqueue' ▸ hwork')
    · cases host with
      | uplink =>
        show n'.uplink.isSome = true ↔ n.uplink.isSome = true
        rw [huplink]
      | peer id =>
        refine mem_peers.trans (Iff.trans ?_ mem_peers.symm)
        rw [hsessions]
  cases hc with
  | idle => exact ⟨h, fun host => Iff.rfl⟩
  | submitted event =>
    refine ⟨h.of_queue horderly h.uplink rfl fun work hwork => ?_, fun host => ?_⟩
    · refine (List.mem_append.mp hwork).imp_right fun hmem => ?_
      exact ⟨event, List.mem_singleton.mp hmem, hmild⟩
    · cases host with
      | uplink => exact Iff.rfl
      | peer id => exact Iff.rfl
  | drained now hqueue | passed now hqueue | skipped now hqueue hnot =>
    exact hpopped hqueue horderly rfl rfl rfl
  | answered now hqueue hfind hphase =>
    cases hphase.symm.trans (h.sessions _ _ hfind).2.1
  | connected | lost | accepted | peerLost => exact hmild.elim
  | @heard engine now line hup =>
    obtain ⟨engine', step, hread, hstate, hdrop, -, -⟩ :=
      HostLinkEngine.onLineReceived_of_sound now (h.uplink _ hup) hmild
    have hkeep := congrArg Prod.fst (HostLink.receiveLine_of_keep n.links n.hub hread hdrop)
    refine ⟨h.of_queue horderly (fun e he => ?_) rfl fun work hwork => Or.inl hwork, fun host => ?_⟩
    · cases hkeep.symm.trans he
      exact hstate
    · cases host with
      | uplink =>
        show Option.isSome (HostLink.receiveLine _ _ _ _ _).1 = true ↔ n.uplink.isSome = true
        rw [hkeep, hup]
        exact Iff.rfl
      | peer id => exact Iff.rfl
  | @ticked engine now hup =>
    have hdrop := hmild engine hup
    refine ⟨h.of_queue horderly (fun e he => ?_) rfl fun work hwork => Or.inl hwork, fun host => ?_⟩
    · dsimp only at he
      rw [hdrop, if_neg (by simp)] at he
      cases he
      exact (HostLinkEngine.state_onTick now engine).trans (h.uplink _ hup)
    · cases host with
      | uplink =>
        show Option.isSome (if _ then none else some _) = true ↔ n.uplink.isSome = true
        rw [hdrop, if_neg (by simp), hup]
        exact Iff.rfl
      | peer id => exact Iff.rfl
  | arrived line hfind =>
    obtain ⟨hregistered, hphase, hinbox⟩ := h.sessions _ _ hfind
    refine h.putSession hfind horderly hregistered hphase fun line' hline' => ?_
    rcases List.mem_append.mp hline' with hline' | hline'
    · exact hinbox line' hline'
    · exact List.mem_singleton.mp hline' ▸ hmild
  | @threw session line lines fault now hfind hphase hinbox hread =>
    obtain ⟨engine', step', hread', -⟩ := h.takes hfind hinbox now
    cases hread.symm.trans hread'
  | @dropped session line lines engine step now hfind hphase hinbox hread hdrop =>
    obtain ⟨engine', step', hread', hdrop', -⟩ := h.takes hfind hinbox now
    cases hread.symm.trans hread'
    rw [hdrop'] at hdrop
    cases hdrop
  | @registered session line lines engine step now hfind hphase hinbox hread hdrop hcompleted =>
    obtain ⟨engine', step', hread', -, hcompleted', -⟩ := h.takes hfind hinbox now
    cases hread.symm.trans hread'
    rw [hcompleted'] at hcompleted
    cases hcompleted
  | @relayed session line lines engine step now hfind hphase hinbox hread hdrop hcompleted
      hregistered =>
    obtain ⟨-, -, hsound⟩ := h.sessions _ _ hfind
    have hput : Orderly (n.putSession { session with inbox := lines, engine := engine }) := by
      refine h.orderly.putSession hfind rfl ?_
      have hs := h.orderly.sessions _ _ hfind
      refine ⟨fun _ => ?_, fun hbad => ?_, hs.early⟩
      · rw [hs.state_of_line hread, hcompleted, if_neg Bool.false_ne_true]
        exact hs.registered hregistered
      · cases hregistered.symm.trans hbad
    obtain ⟨hup, hhosts⟩ := h.putSession (s := { session with inbox := lines, engine := engine })
      hfind hput hregistered hphase fun line' hline' =>
        hsound line' (hinbox ▸ List.mem_cons_of_mem _ hline')
    obtain ⟨hup', hhosts'⟩ := hup.submitContent (hsound line (hinbox ▸ List.mem_cons_self))
      ((hhosts _).mpr ((h.connected_peer_iff _).mpr ⟨session, hfind⟩)) horderly
    exact ⟨hup', fun host => (hhosts' host).trans (hhosts host)⟩
  | kept now hfind hphase hinbox hread hdrop hcompleted hregistered =>
    cases hregistered.symm.trans (h.sessions _ _ hfind).1
  | announced hfind hphase | resubmitted hfind hphase | began hfind hphase =>
    cases hphase.symm.trans (h.sessions _ _ hfind).2.1
  | peerDropped now hfind hphase hdrop =>
    rw [hmild _ hfind] at hdrop
    cases hdrop
  | peerTicked now hfind hphase hdrop =>
    obtain ⟨hregistered, -, hinbox⟩ := h.sessions _ _ hfind
    exact h.putSession hfind horderly hregistered hphase hinbox

/-! ### What a step writes -/

/-- A line that a step reads off a link that is up is sound. -/
theorem Up.sound_of_heard (h : n.Up) (hmild : n.Mild label) {origin : RemoteHost} {line : Text}
    (hheard : n.heard label = some (origin, line)) : SoundLine line := by
  cases label with
  | uplinkLine now line' =>
    rw [heard] at hheard
    split at hheard
    · cases hheard
      exact hmild
    · cases hheard
  | read now id =>
    rcases n.read_cases now id with
      ⟨session, line', lines, hfind, hphase, hinbox, hheard'⟩ | ⟨hheard', -⟩
    · cases hheard.symm.trans hheard'
      exact (h.sessions id session hfind).2.2 line (hinbox ▸ List.mem_cons_self)
    · cases hheard.symm.trans hheard'
  | _ => cases hheard

/-- A mild step is one that is relayed. -/
theorem Up.relayable (h : n.Up) (hmild : n.Mild label) : n.Relayable label := by
  intro origin c line hheard hcontent
  have hstamped := (h.sound_of_heard hmild hheard).stamped
  cases origin with
  | peer id => exact hstamped
  | uplink =>
    refine Or.inr ⟨?_, hstamped⟩
    cases label with
    | uplinkLine now line' =>
      rcases hup : n.uplink with _ | engine
      · rw [heard, hup, Option.isSome_none, if_neg Bool.false_ne_true] at hheard
        cases hheard
      · exact ⟨engine, rfl, h.uplink engine hup⟩
    | read now id =>
      rcases n.read_cases now id with ⟨session, line', lines, -, -, -, hheard'⟩ | ⟨hheard', -⟩
      · cases hheard.symm.trans hheard'
      · cases hheard.symm.trans hheard'
    | _ => cases hheard

theorem Up.keepsPeers (h : n.Up) : n.KeepsPeers label := by
  cases label with
  | peerLoss id => exact fun session hfind => (h.sessions id session hfind).1
  | peerTick now id => exact fun session hfind => Or.inl (h.sessions id session hfind).1
  | _ => trivial

/-- What a step deals with is a stable command of the network, from a connected host. -/
theorem Up.stable_of_handled (h : n.Up) (hmild : n.Mild label) {origin : RemoteHost}
    {c : HostCommand} (hhandled : n.handled label = some (origin, c)) :
    c.Stable ∧ PeerRelay.isLinkLocal c = false ∧ n.connected origin := by
  cases label with
  | uplinkLine now line =>
    rw [handled, received, heard] at hhandled
    split at hhandled
    · rename_i hup
      obtain ⟨c', hcontent, heq⟩ := Option.map_eq_some_iff.mp hhandled
      cases heq
      obtain ⟨hstable, hlocal⟩ := SoundLine.stable hmild hcontent
      exact ⟨hstable, hlocal, hup⟩
    · cases hhandled
  | drain now =>
    rw [handled] at hhandled
    split at hhandled
    · rename_i c' id rest hqueue
      cases hhandled
      have hmem : HubWork.peer c id ∈ n.queue := hqueue ▸ List.mem_cons_self
      exact ⟨(h.commands c id hmem).1, (h.orderly.queue c id hmem).1, (h.commands c id hmem).2⟩
    · cases hhandled
  | _ => cases hhandled

/-- The commands that a session puts on its own queue are replies and pongs. -/
theorem mem_writtenTo_applyPeerStep {id : Text} {step : EngineStep} {host : RemoteHost}
    {c : HostCommand} (hc : c ∈ writtenTo host (applyPeerStep id step)) :
    c ∈ step.outboundCommands ∨ c.Keepalive := by
  cases host with
  | uplink =>
    rw [writtenTo_applyPeerStep step (by rintro ⟨⟩)] at hc
    cases hc
  | peer peerId =>
    obtain ⟨effect, heffect, hto⟩ := List.mem_filterMap.mp hc
    obtain ⟨d, hd, rfl⟩ := List.mem_map.mp heffect
    dsimp only at hto
    split at hto
    · cases hto
      refine (List.mem_append.mp hd).imp_right fun hpong => ?_
      obtain ⟨-, -, rfl⟩ := List.mem_map.mp hpong
      exact Or.inr ⟨_, rfl⟩
    · cases hto

/-- A sound line of the parent without content is answered with pongs at most. -/
theorem keepalive_receiveLine {links : HostLink.Links} {now : DateTimeOffset} {e : HostLinkEngine}
    {hub : Hub} {line : Text} (hstate : e.state = .established) (hline : SoundLine line)
    (hcontent : PeerRelay.contentOf line = none) (host : RemoteHost) :
    ∀ c ∈ writtenTo host (HostLink.receiveLine links now e hub line).2.2, c.Keepalive := by
  obtain ⟨engine, step, hread, -, hdrop, hcompleted, hreplies⟩ :=
    HostLinkEngine.onLineReceived_of_sound now hstate hline
  intro c hc
  cases host with
  | uplink =>
    rw [HostLink.receiveLine_of_keep links hub hread hdrop, hcompleted,
      if_neg Bool.false_ne_true, HostLink.relayedLine_of_none links hcontent, HostLink.applyStep,
      hreplies] at hc
    have hc : c ∈ attempted (HostLink.applyEvents links none now hub step.hubEvents).2.effects := by
      simpa [HostLink.Trace.effects_andThen, writtenTo] using hc
    exact HostLink.keepalive_applyEvents (HostLinkEngine.isLocal_of_mem_hubEvents hread) hc
  | peer id =>
    refine absurd hc ?_
    rw [writtenTo, HostLink.enqueuedTo_receiveLine links hread, hcontent, Option.toList_none,
      ite_self]
    exact List.not_mem_nil

/-- **What the loop writes of an event it takes off its queue** is what the node says. It says it to
every connected host alike. -/
theorem Up.written_drain (h : n.Up) {now : DateTimeOffset} {host : RemoteHost}
    (hhost : n.connected host) (hhandled : n.handled (.drain now) = none) :
    writtenTo host (n.effects (.drain now)) = n.saidBy (.drain now) := by
  have hnothing : writtenTo host [] = [] := by
    cases host with
    | uplink => rfl
    | peer id => rfl
  rw [effects, next, drain, saidBy]
  rcases hqueue : n.queue with _ | ⟨_ | id | ⟨c, id⟩, queue⟩
  · exact hnothing
  · rename_i event
    have hlocal := h.events event (hqueue ▸ List.mem_cons_self)
    cases host with
    | uplink =>
      exact (HostLink.attempted_drainLocalEvent _ now n.hub hlocal).trans (if_pos hhost)
    | peer id => exact HostLink.enqueuedTo_drainLocalEvent _ now n.hub hlocal hhost
  · dsimp only
    split
    · split
      · exact hnothing
      · exact hnothing
    · exact hnothing
  · rw [handled, hqueue] at hhandled
    cases hhandled

/-- **What a step writes to a host** is what it deals with from another one, what it says, or
nothing but pings and pongs. The flood of a network is read off the writes by it. -/
theorem Up.written (h : n.Up) (hmild : n.Mild label) {host : RemoteHost}
    (hhost : n.connected host) :
    (∃ origin c, n.handled label = some (origin, c) ∧
        writtenTo host (n.effects label) = if host = origin then [] else [c]) ∨
      n.handled label = none ∧ writtenTo host (n.effects label) = n.saidBy label ∨
      n.handled label = none ∧ n.saidBy label = [] ∧
        ∀ c ∈ writtenTo host (n.effects label), c.Keepalive := by
  rcases hhandled : n.handled label with _ | ⟨origin, c⟩
  · refine Or.inr ?_
    -- an event that is drained is said to all; any other step says nothing of its own
    by_cases hdrain : ∃ now, label = .drain now
    · obtain ⟨now, rfl⟩ := hdrain
      exact Or.inl ⟨rfl, h.written_drain hhost hhandled⟩
    have hsaid : n.saidBy label = [] := by
      cases label with
      | drain now => exact absurd ⟨now, rfl⟩ hdrain
      | _ => rfl
    refine Or.inr ⟨rfl, hsaid, fun c hcommand => ?_⟩
    -- what is written then is for the link alone, by what the step did
    obtain ⟨n', calls, hnext, hc⟩ := n.exists_change label
    rw [effects, hnext] at hcommand
    have hnothing : ∀ host, c ∉ writtenTo host [] := by
      rintro ⟨_ | id⟩
      · rintro ⟨⟩
      · rintro ⟨⟩
    cases hc with
    | idle | submitted | arrived | threw | resubmitted | began | lost | peerLost =>
      exact absurd hcommand (hnothing host)
    | drained now | passed now | answered now | skipped now => exact absurd ⟨now, rfl⟩ hdrain
    | connected | accepted => exact hmild.elim
    | @heard engine now line hup =>
      have hcontent : PeerRelay.contentOf line = none := by
        rw [handled, received, Node.heard, hup] at hhandled
        exact Option.map_eq_none_iff.mp hhandled
      exact keepalive_receiveLine (h.uplink engine hup) hmild hcontent host c hcommand
    | @ticked engine now hup =>
      obtain ⟨hevents, hpings⟩ := HostLinkEngine.onTick_pings now engine
      rw [HostLink.applyStep, hevents] at hcommand
      cases host with
      | uplink =>
        refine Or.inl (hpings c ?_)
        simpa [writtenTo, attempted, HostLink.applyEvents, List.filterMap_map] using hcommand
      | peer id =>
        refine absurd hcommand ?_
        simp [writtenTo, enqueuedTo, HostLink.applyEvents, List.filterMap_map]
    | @dropped session line lines engine step now hfind hphase hinbox hread
    | @registered session line lines engine step now hfind hphase hinbox hread
    | @relayed session line lines engine step now hfind hphase hinbox hread
    | @kept session line lines engine step now hfind hphase hinbox hread =>
      obtain ⟨engine', step', hread', -, -, hreplies⟩ := h.takes hfind hinbox now
      cases hread.symm.trans hread'
      refine (mem_writtenTo_applyPeerStep hcommand).resolve_left fun hreply => ?_
      rw [hreplies] at hreply
      cases hreply
    | announced hfind hphase => cases hphase.symm.trans (h.sessions _ _ hfind).2.1
    | @peerDropped session now | @peerTicked session now =>
      refine (mem_writtenTo_applyPeerStep hcommand).elim (fun hping => Or.inl ?_) id
      exact (HostLinkEngine.onTick_pings now session.engine).2 c hping
  · -- content that is dealt with goes to all but the one it came from
    refine Or.inl ⟨origin, c, rfl, ?_⟩
    rw [(h.orderly.relaysRight (h.relayable hmild)).passed origin c hhandled host]
    by_cases horigin : host = origin
    · rw [if_pos horigin, if_neg fun hbad => hbad.1 horigin]
    · rw [if_neg horigin, if_pos ⟨horigin, hhost⟩]

/-- A step that deals with a command says nothing: the loop takes one item at a time. -/
theorem saidBy_of_handled {origin : RemoteHost} {c : HostCommand}
    (h : n.handled label = some (origin, c)) : n.saidBy label = [] := by
  cases label with
  | drain now =>
    rw [handled] at h
    rw [saidBy]
    split
    · rename_i hqueue
      rw [hqueue] at h
      cases h
    · rfl
  | _ => rfl

/-- Pings and pongs are not heard as commands of the network. -/
theorem heardAs_eq_nil {commands : List HostCommand} (h : ∀ c ∈ commands, c.Keepalive) :
    commands.flatMap heardAs = [] := by
  refine List.flatMap_eq_nil_iff.mpr fun c hc => ?_
  rw [(h c hc).stable.heardAs, if_pos (h c hc).isLinkLocal]

/-- **What a connected host hears of a step**: what the node deals with from another host, or what
it says. Pings and pongs are no commands of the network, so they drop out here. -/
theorem Up.heardBy (h : n.Up) (hmild : n.Mild label) {host : RemoteHost}
    (hhost : n.connected host) :
    (writtenTo host (n.effects label)).flatMap heardAs =
      match n.handled label with
      | some (origin, c) => if host = origin then [] else [c]
      | none => (n.saidBy label).flatMap heardAs := by
  rcases h.written hmild hhost with ⟨origin, c, hhandled, hwritten⟩ | ⟨hhandled, hwritten⟩ |
    ⟨hhandled, hsaid, hkeepalive⟩
  · obtain ⟨hstable, hlocal, -⟩ := h.stable_of_handled hmild hhandled
    rw [hwritten, hhandled]
    dsimp only
    split
    · rfl
    · rw [List.flatMap_singleton, hstable.heardAs, hlocal, if_neg Bool.false_ne_true]
  · rw [hwritten, hhandled]
  · rw [heardAs_eq_nil hkeepalive, hhandled, hsaid, List.flatMap_nil]

/-- The lines of what is written to a connected host are sound. -/
theorem Up.intact (h : n.Up) (hmild : n.Mild label) {host : RemoteHost}
    (hhost : n.connected host) : ∀ c ∈ writtenTo host (n.effects label), c.Intact := by
  intro c hc
  rcases h.written hmild hhost with ⟨origin, c', hhandled, hwritten⟩ | ⟨hhandled, hwritten⟩ |
    ⟨-, -, hkeepalive⟩
  · rw [hwritten] at hc
    split at hc
    · cases hc
    · exact List.mem_singleton.mp hc ▸ (h.stable_of_handled hmild hhandled).1.intact
  · rw [hwritten] at hc
    cases label with
    | drain now => exact hmild c hc
    | _ => cases hc
  · exact (hkeepalive c hc).stable.intact

/-! ### What arrives is dealt with -/

/-- The commands of the network on the transport of a peer. -/
def inboxFrom (n : Node) : RemoteHost → List HostCommand
  | .uplink => []
  | .peer peerId =>
    match n.sessions.find? peerId with
    | some session => session.inbox.filterMap PeerRelay.contentOf
    | none => []

/-- The commands of a host that have arrived and are not dealt with. -/
def pending (n : Node) (host : RemoteHost) : List HostCommand := n.waiting host ++ n.inboxFrom host

/-- The command of the network that arrives from a host with a step. -/
def arriving (host : RemoteHost) : Label → List HostCommand
  | .uplinkLine _ line => if host = .uplink then (PeerRelay.contentOf line).toList else []
  | .arrive peerId line => if host = .peer peerId then (PeerRelay.contentOf line).toList else []
  | _ => []

theorem inboxFrom_putSession (n : Node) (s : PeerSession) (host : RemoteHost) :
    (n.putSession s).inboxFrom host =
      if host = .peer s.id then s.inbox.filterMap PeerRelay.contentOf else n.inboxFrom host := by
  cases host with
  | uplink => rfl
  | peer id =>
    rw [inboxFrom, find?_putSession]
    by_cases hid : id = s.id
    · rw [if_pos hid, if_pos (congrArg _ hid)]
    · rw [if_neg hid, if_neg fun hbad => hid (RemoteHost.peer.inj hbad)]
      rfl

theorem inboxFrom_of_find? {session : PeerSession}
    (hfind : n.sessions.find? session.id = some session) :
    n.inboxFrom (.peer session.id) = session.inbox.filterMap PeerRelay.contentOf := by
  rw [inboxFrom, hfind]

/-- A step that neither hears nor takes in a line leaves what is on the transports. -/
theorem Up.inboxFrom_step (h : n.Up) (hmild : n.Mild label)
    (hline : ∀ now line, label ≠ .uplinkLine now line)
    (harrive : ∀ id line, label ≠ .arrive id line) (hread : ∀ now id, label ≠ .read now id)
    (host : RemoteHost) :
    (n.step label).inboxFrom host = n.inboxFrom host := by
  obtain ⟨n', calls, hnext, hc⟩ := n.exists_change label
  rw [Node.step, hnext]
  cases hc with
  | idle => rfl
  | submitted | drained | passed | skipped | ticked =>
    cases host with
    | uplink => rfl
    | peer id => rfl
  | answered now hqueue hfind hphase => cases hphase.symm.trans (h.sessions _ _ hfind).2.1
  | announced hfind hphase | resubmitted hfind hphase | began hfind hphase =>
    cases hphase.symm.trans (h.sessions _ _ hfind).2.1
  | connected | lost | accepted | peerLost => exact hmild.elim
  | heard now line => exact absurd rfl (hline now line)
  | arrived line => exact absurd rfl (harrive _ line)
  | threw now | dropped now | registered now | relayed now | kept now =>
    exact absurd rfl (hread now _)
  | peerDropped now hfind hphase hdrop =>
    rw [hmild _ hfind] at hdrop
    cases hdrop
  | peerTicked now hfind =>
    rw [inboxFrom_putSession]
    split
    · rename_i hpeer
      rw [hpeer]
      exact (inboxFrom_of_find? hfind).symm
    · rfl

/-- **What arrives is read in order.** A session takes its lines off the front, and what is new goes
to the end. -/
theorem Up.inbox_step (h : n.Up) (hmild : n.Mild label) {host : RemoteHost}
    (hhost : n.connected host) :
    n.inboxFrom host ++ arriving host label =
      ofHost host (n.received label) ++ (n.step label).inboxFrom host := by
  cases label with
  | uplinkLine now line =>
    have hsame : (n.step (.uplinkLine now line)).inboxFrom host = n.inboxFrom host := by
      rw [Node.step, next]
      split
      · cases host with
        | uplink => rfl
        | peer id => rfl
      · rfl
    rw [hsame]
    cases host with
    | uplink =>
      have hheard : n.heard (.uplinkLine now line) = some (.uplink, line) := by
        rw [heard]
        exact if_pos hhost
      rw [received, hheard, Option.bind_some, ofHost_map, if_pos rfl]
      exact (List.append_nil _).symm
    | peer id =>
      -- what the uplink says is no business of a peer
      have hnone : ofHost (.peer id) (n.received (.uplinkLine now line)) = [] := by
        rw [received, heard]
        split
        · exact (ofHost_map _ _ _).trans (if_neg (by rintro ⟨⟩))
        · rfl
      rw [hnone]
      exact List.append_nil _
  | arrive id line =>
    have hreceived : n.received (.arrive id line) = none := rfl
    rw [Node.step, next, hreceived, ofHost, List.nil_append]
    dsimp only [arriving]
    rcases hfind : n.sessions.find? id with _ | session
    · refine (congrArg (n.inboxFrom host ++ ·) (if_neg ?_)).trans (List.append_nil _)
      rintro rfl
      obtain ⟨s, hs⟩ := (h.connected_peer_iff id).mp hhost
      cases hfind.symm.trans hs
    · obtain rfl : session.id = id := Table.key_of_find? hfind
      dsimp only
      -- the line goes to the end of the inbox of its own session, and counts if it is content
      rw [inboxFrom_putSession]
      by_cases hid : host = .peer session.id
      · rw [if_pos hid, if_pos hid, hid, inboxFrom_of_find? hfind, List.filterMap_append]
        refine congrArg (_ ++ ·) ?_
        rcases hcontent : PeerRelay.contentOf line with _ | c
        · rw [List.filterMap_cons_none hcontent]
          rfl
        · rw [List.filterMap_cons_some hcontent]
          rfl
      · rw [if_neg hid, if_neg hid, List.append_nil]
  | read now id =>
    have hnone : arriving host (.read now id) = [] := rfl
    rw [hnone, List.append_nil]
    rcases n.read_cases now id with
      ⟨session, line, lines, hfind, hphase, hinbox, hheard⟩ | ⟨hheard, hstep⟩
    · obtain rfl : session.id = id := Table.key_of_find? hfind
      obtain ⟨engine, step, hread, hdrop, hcompleted, -⟩ := h.takes hfind hinbox now
      -- whatever the engine made of the line, the session has one line less in its inbox
      have hnext : (n.step (.read now session.id)).inboxFrom host =
          (n.putSession { session with inbox := lines, engine := engine }).inboxFrom host := by
        rw [Node.step, next_read hfind hphase hinbox, readLine, hread]
        dsimp only
        rw [hdrop]
        dsimp only
        rw [hcompleted, if_neg Bool.false_ne_true, (h.sessions _ _ hfind).1, if_pos rfl,
          Node.submitContent]
        split
        · cases host with
          | uplink => rfl
          | peer id => rfl
        · rfl
      rw [hnext, inboxFrom_putSession, received, hheard, Option.bind_some, ofHost_map]
      by_cases hid : host = .peer session.id
      · rw [if_pos hid, if_pos hid.symm, hid, inboxFrom_of_find? hfind, hinbox]
        rcases hcontent : PeerRelay.contentOf line with _ | c
        · rw [List.filterMap_cons_none hcontent]
          rfl
        · rw [List.filterMap_cons_some hcontent]
          rfl
      · rw [if_neg hid, if_neg (Ne.symm hid), List.nil_append]
    · rw [received, hheard, hstep]
      rfl
  | _ =>
    -- the three steps above are the only ones that touch an inbox
    rw [h.inboxFrom_step hmild (by rintro _ _ ⟨⟩) (by rintro _ _ ⟨⟩) (by rintro _ _ ⟨⟩)]
    exact List.append_nil _

/-- **What arrives from a host is dealt with in order**, or waits. Together with what a link
delivers this is the queue between two hubs. -/
theorem Up.conserve (h : n.Up) (hmild : n.Mild label) {host : RemoteHost}
    (hhost : n.connected host) :
    n.pending host ++ arriving host label =
      ofHost host (n.handled label) ++ (n.step label).pending host := by
  rw [pending, pending, List.append_assoc, h.inbox_step hmild hhost, ← List.append_assoc,
    h.orderly.conserve (h.relayable hmild) h.keepsPeers host, List.append_assoc]

end Node

end Convers
