import Convers.Host.Composition
import Convers.Host.Mirror

/-!
# Messages with another text

Nothing the loop does depends on the text of a message on a channel, but what it passes on: the hub
answers alike (`Convers.Hub.advance_retold`), a dispatch ends alike
(`Convers.HostLink.threw_dispatchActions`), and the writer makes the same entry but for the text.
Where the channel is for the invited only, the message is said in confidence: its deliveries are for
the sessions on the channel and its entry is on the channel
(`Convers.HostLink.inConfidence_drainLocalEvent`).
-/

namespace Convers

/-! ### Messages with another text -/

/-- The same event, but for the text of a message on a channel. Nobody says nothing: the sessions
submit no empty text and the hub ignores one. -/
inductive ConversEvent.Retold : ConversEvent → ConversEvent → Prop where
  | same (e : ConversEvent) : Retold e e
  | say (sessionId : Text) {text text' : Text} (htext : text ≠ []) (htext' : text' ≠ []) :
    Retold (.localSay sessionId text) (.localSay sessionId text')
  | message (user : Text) (channel : Int32) {text text' : Text} (htext : text ≠ [])
      (htext' : text' ≠ []) :
    Retold (.hostChannelMessage user channel text) (.hostChannelMessage user channel text')

/-- The same action, but for the text of such a message. -/
inductive ConversAction.Retold : ConversAction → ConversAction → Prop where
  | same (a : ConversAction) : Retold a a
  | deliver (sessionId : Text) (channel : Int32) (fromUser text text' : Text) :
    Retold (.deliverChannelMessage sessionId channel fromUser text)
      (.deliverChannelMessage sessionId channel fromUser text')
  | send (user : Text) (channel : Int32) (text text' : Text) :
    Retold (.sendChannelMessage user channel text) (.sendChannelMessage user channel text')

namespace Hub

variable (h : Hub) (now : DateTimeOffset)

/-- A message on a channel that is for the invited only. -/
def isConfined (c : Int32) : ConversEvent → Bool
  | .localSay sessionId _ =>
    ChannelModes.requiresInvite (h.modesOf c) &&
      (h.sessions.find? sessionId).any fun s => s.channel = c
  | .hostChannelMessage _ channel _ =>
    ChannelModes.requiresInvite (h.modesOf c) && channel = c
  | _ => false

variable {h now} {e e' : ConversEvent}

theorem forall₂_same (actions : List ConversAction) :
    List.Forall₂ ConversAction.Retold actions actions :=
  List.forall₂_same.mpr fun a _ => .same a

theorem forall₂_deliverToChannel (channel : Int32) (fromUser text text' : Text)
    (exceptSession : Option Text) :
    List.Forall₂ ConversAction.Retold (h.deliverToChannel channel fromUser text exceptSession)
      (h.deliverToChannel channel fromUser text' exceptSession) := by
  rw [deliverToChannel, deliverToChannel, List.forall₂_map_left_iff, List.forall₂_map_right_iff]
  exact List.forall₂_same.mpr fun s _ => .deliver s.id channel fromUser text text'

/-- **The hub answers a message the same way whatever its text is.** The text is in the actions and
nowhere else, so no later event can tell the two hubs apart. -/
theorem advance_retold (h : Hub) (now : DateTimeOffset) (he : e.Retold e') :
    (h.advance now e').hub = (h.advance now e).hub ∧
      (h.advance now e').fault = (h.advance now e).fault ∧
        List.Forall₂ ConversAction.Retold (h.advance now e).actions (h.advance now e').actions := by
  cases he with
  | same e => exact ⟨rfl, rfl, forall₂_same _⟩
  | @say sessionId text text' htext htext' =>
    rw [advance, advance, localSay, localSay]
    rcases h.sessions.find? sessionId with _ | s
    · exact ⟨rfl, rfl, .nil⟩
    · dsimp only
      rw [if_neg (mt List.length_eq_zero_iff.mp htext),
        if_neg (mt List.length_eq_zero_iff.mp htext')]
      split
      · exact ⟨rfl, rfl, forall₂_same _⟩
      · refine ⟨rfl, rfl, List.rel_append ?_ (forall₂_deliverToChannel _ _ _ _ _)⟩
        split
        · exact .nil
        · exact .cons (.send _ _ _ _) .nil
  | @message user channel text text' htext htext' =>
    have hempty : ∀ {text : Text}, text ≠ [] → decide (text.length = 0) = false := fun htext =>
      decide_eq_false (mt List.length_eq_zero_iff.mp htext)
    rw [advance, advance, hostChannelMessage, hostChannelMessage, hempty htext, hempty htext']
    split
    · exact ⟨rfl, rfl, .nil⟩
    · exact ⟨rfl, rfl, forall₂_deliverToChannel _ _ _ _ _⟩

/-- **A confined message is delivered on its channel only**, and so is its refusal. It is why a user
who is on another channel is not shown it by the hub. -/
theorem channel_of_confined {c : Int32} (hconfined : h.isConfined c e = true) :
    ∀ a ∈ (h.advance now e).actions, ∀ sessionId, ActionRenderer.targetSession a = some sessionId →
      ∃ s, h.sessions.find? sessionId = some s ∧ s.channel = c := by
  have hdelivered : ∀ {fromUser text : Text} {exceptSession : Option Text},
      ∀ a ∈ h.deliverToChannel c fromUser text exceptSession, ∀ sessionId,
        ActionRenderer.targetSession a = some sessionId →
          ∃ s, h.sessions.find? sessionId = some s ∧ s.channel = c := by
    intro fromUser text exceptSession a ha sessionId htarget
    obtain ⟨s, hs, rfl⟩ := List.mem_map.mp ha
    obtain ⟨hrecord, hchannel⟩ := List.mem_filter.mp hs
    cases htarget
    rw [Bool.and_eq_true, decide_eq_true_eq] at hchannel
    exact ⟨s, Table.mem_records.mp hrecord, hchannel.1⟩
  cases e with
  | localSay sessionId text =>
    rw [isConfined, Bool.and_eq_true, Option.any_eq_true] at hconfined
    obtain ⟨-, s, hs, hchannel⟩ := hconfined
    obtain rfl : s.channel = c := of_decide_eq_true hchannel
    rw [advance, localSay, hs]
    dsimp only
    split
    · rintro a ⟨⟩
    · split
      · rintro a ha id htarget
        obtain rfl := List.mem_singleton.mp ha
        cases htarget
        exact ⟨s, hs, rfl⟩
      · intro a ha id htarget
        rcases List.mem_append.mp ha with ha | ha
        · split at ha
          · cases ha
          · obtain rfl := List.mem_singleton.mp ha
            cases htarget
        · exact hdelivered a ha id htarget
  | hostChannelMessage user channel text =>
    rw [isConfined, Bool.and_eq_true, decide_eq_true_eq] at hconfined
    obtain ⟨-, rfl⟩ := hconfined
    rw [advance, hostChannelMessage]
    split
    · rintro a ⟨⟩
    · exact hdelivered
  | _ => cases hconfined

end Hub

namespace HostLink

variable {links : Links} {exceptPeerId : Option Text}

/-- Calls that deliver nothing and that the writer does not see. -/
def Silent (effects : List Effect) : Prop :=
  delivered effects = [] ∧ effects.filterMap ChatLogWriter.entryOf = []

theorem Silent.append {l m : List Effect} (hl : Silent l) (hm : Silent m) : Silent (l ++ m) := by
  refine ⟨?_, ?_⟩
  · rw [delivered_append, hl.1, hm.1, List.nil_append]
  · rw [List.filterMap_append, hl.2, hm.2, List.nil_append]

/-- The calls that carry a command out on the uplink. -/
def carryUp (links : Links) (exceptPeerId : Option Text) (succeeds : Bool) (command : HostCommand) :
    Trace :=
  if links.reachesUplink exceptPeerId then sendCommand succeeds command else .calls []

/-- The calls that carry a command out on every link. -/
def carry (links : Links) (exceptPeerId : Option Text) (succeeds : Bool) (command : HostCommand) :
    Trace :=
  (carryUp links exceptPeerId succeeds command).andThen
    (fanOutToPeers links true exceptPeerId false command)

theorem silent_carryUp (succeeds : Bool) (command : HostCommand) :
    Silent (carryUp links exceptPeerId succeeds command).effects := by
  rw [carryUp]
  split
  · exact ⟨rfl, rfl⟩
  · exact ⟨rfl, rfl⟩

theorem silent_carry (succeeds : Bool) (command : HostCommand) :
    Silent (carry links exceptPeerId succeeds command).effects := by
  rw [carry, Trace.effects_andThen]
  refine (silent_carryUp succeeds command).append ?_
  split
  · exact ⟨rfl, rfl⟩
  · refine ⟨delivered_enqueue _ command, (List.filterMap_map ..).trans ?_⟩
    exact List.filterMap_eq_nil_iff.mpr fun peer _ => rfl

/-- Whether they return does not depend on the command. -/
theorem threw_carry (succeeds : Bool) (command : HostCommand) :
    (carry links exceptPeerId succeeds command).threw =
      (links.reachesUplink exceptPeerId && !succeeds) := by
  rw [carry, carryUp]
  rcases links.reachesUplink exceptPeerId with _ | _
  · rfl
  · cases succeeds <;> rfl

/-- **What a dispatch does with one action**: some calls, which deliver that action at most and
which the writer does not see, and then the others. It lets an induction on the actions go by one of
them at a time. -/
theorem exists_dispatchActions_cons (links : Links) (exceptPeerId : Option Text)
    (succeeds : ℕ → Bool) (a : ConversAction) :
    ∃ (first : Trace) (succeeds' : ℕ → Bool), (∀ b ∈ delivered first.effects, b = a) ∧
      first.effects.filterMap ChatLogWriter.entryOf = [] ∧
        ∀ actions, dispatchActions links exceptPeerId succeeds (a :: actions) =
          first.andThen (dispatchActions links exceptPeerId succeeds' actions) := by
  have hsilent : ∀ {t : Trace}, Silent t.effects → ∀ b ∈ delivered t.effects, b = a := by
    rintro t ⟨hdelivered, -⟩ b hb
    rw [hdelivered] at hb
    cases hb
  by_cases hdeliver : a.isDeliver = true
  · have hone : Hub.Deliveries [a] := fun b hb => List.mem_singleton.mp hb ▸ hdeliver
    exact ⟨.calls [.deliver a], succeeds, fun b hb => List.mem_singleton.mp hb, rfl,
      fun actions => dispatchActions_append links exceptPeerId succeeds hone actions⟩
  · by_cases hcontent : a.isContent = true
    · obtain ⟨command, hcommand⟩ : ∃ command, HostBridge.toHostCommand a = some command := by
        cases a <;> first | exact ⟨_, rfl⟩ | cases hcontent
      exact ⟨_, _, hsilent (silent_carry _ _), (silent_carry _ _).2,
        dispatchActions_cons links exceptPeerId succeeds hcontent hcommand⟩
    · cases a with
      | dropUplink reason => exact ⟨.calls [], succeeds, nofun, rfl, fun _ => rfl⟩
      | sendPong time =>
        -- it goes to the uplink only
        have hquiet : Silent ((carryUp links exceptPeerId (succeeds 0) (.hostPong time)).andThen
            (.calls [])).effects := by
          rw [Trace.effects_andThen]
          refine (silent_carryUp _ _).append ?_
          rw [Trace.effects_calls, ite_self]
          exact ⟨rfl, rfl⟩
        exact ⟨_, _, hsilent hquiet, hquiet.2, fun _ => rfl⟩
      | _ => first | exact absurd rfl hdeliver | exact absurd rfl hcontent

/-- What is delivered of an answer is of the answer. -/
theorem mem_of_mem_delivered {succeeds : ℕ → Bool} {actions : List ConversAction}
    {a : ConversAction}
    (ha : a ∈ delivered (dispatchActions links exceptPeerId succeeds actions).effects) :
    a ∈ actions := by
  induction actions generalizing succeeds with
  | nil => cases ha
  | cons b actions ih =>
    obtain ⟨first, succeeds', hdelivered, -, heq⟩ :=
      exists_dispatchActions_cons links exceptPeerId succeeds b
    rw [heq, Trace.effects_andThen, delivered_append, List.mem_append] at ha
    rcases ha with ha | ha
    · exact List.mem_cons.mpr (Or.inl (hdelivered a ha))
    · split at ha
      · cases ha
      · exact List.mem_cons_of_mem b (ih ha)

/-- The writer does not see what is done with an answer. -/
theorem entries_dispatchActions (succeeds : ℕ → Bool) (actions : List ConversAction) :
    (dispatchActions links exceptPeerId succeeds actions).effects.filterMap
      ChatLogWriter.entryOf = [] := by
  induction actions generalizing succeeds with
  | nil => rfl
  | cons a actions ih =>
    obtain ⟨first, succeeds', -, hentries, heq⟩ :=
      exists_dispatchActions_cons links exceptPeerId succeeds a
    rw [heq, Trace.effects_andThen, List.filterMap_append, hentries, List.nil_append]
    split
    · rfl
    · exact ih succeeds'

/-- **A dispatch ends the same way** when a message has another text. Whether a session can be
reached does not depend on what is said to it. -/
theorem threw_dispatchActions {succeeds : ℕ → Bool} {actions actions' : List ConversAction}
    (h : List.Forall₂ ConversAction.Retold actions actions') :
    (dispatchActions links exceptPeerId succeeds actions').threw =
      (dispatchActions links exceptPeerId succeeds actions).threw := by
  have hthen : ∀ {s s' t t' : Trace}, s'.threw = s.threw → t'.threw = t.threw →
      (s'.andThen t').threw = (s.andThen t).threw := by
    intro s s' t t' hs ht
    rw [Trace.threw_andThen, Trace.threw_andThen, hs, ht]
  induction h generalizing succeeds with
  | nil => rfl
  | @cons a a' actions actions' ha _ ih =>
    cases ha with
    | same =>
      obtain ⟨first, succeeds', -, -, heq⟩ :=
        exists_dispatchActions_cons links exceptPeerId succeeds a
      rw [heq, heq]
      exact hthen rfl ih
    | deliver sessionId channel fromUser text text' => exact hthen rfl ih
    | send user channel text text' =>
      rw [dispatchActions_cons links exceptPeerId succeeds rfl rfl,
        dispatchActions_cons links exceptPeerId succeeds rfl rfl]
      exact hthen ((threw_carry _ _).trans (threw_carry _ _).symm) ih

/-! ### An event on the loop -/

variable {now : DateTimeOffset} {h : Hub} {succeeds : ℕ → Bool} {e e' : ConversEvent}

/-- What the writer makes of one call. -/
theorem entries_singleton (x : Effect) :
    [x].filterMap ChatLogWriter.entryOf = (ChatLogWriter.entryOf x).toList := by
  rw [List.filterMap_cons, List.filterMap_nil]
  rcases ChatLogWriter.entryOf x <;> rfl

/-- What the writer makes of a turn on an event of a session. -/
def drainEntry (links : Links) (succeeds : ℕ → Bool) (now : DateTimeOffset) (h : Hub)
    (e : ConversEvent) : Option ChatLogEntry :=
  if (drainLocalEvent links isLoggableLocal succeeds now h e).2.threw then none
  else (resolveLocalIdentity isLoggableLocal h e).bind fun (call, channel) =>
    ChatLogWriter.logLocal e call channel (h.advance now e).actions

theorem entries_drainLocalEvent :
    (drainLocalEvent links isLoggableLocal succeeds now h e).2.effects.filterMap
      ChatLogWriter.entryOf = (drainEntry links succeeds now h e).toList := by
  rw [drainEntry]
  rcases hfault : (h.advance now e).fault with _ | fault
  · rw [drainLocalEvent_of_ok links isLoggableLocal succeeds now hfault, Trace.effects_andThen,
      List.filterMap_append, entries_dispatchActions, List.nil_append]
    rcases hthrew : (dispatchActions links none succeeds (h.advance now e).actions).threw with _ | _
    · rw [Trace.andThen, hthrew, logOf]
      rcases resolveLocalIdentity isLoggableLocal h e with _ | ⟨call, channel⟩
      · rfl
      · exact entries_singleton _
    · rw [Trace.andThen, hthrew, if_pos rfl, if_pos rfl, hthrew]
      rfl
  · simp only [drainLocalEvent, hfault]
    rfl

/-- An event of another host advances the hub. -/
theorem hub_applyEvents :
    (applyEvents links exceptPeerId now h [e]).1 = (h.advance now e).hub := by
  rw [applyEvents]
  split
  · rfl
  · rfl

theorem mem_of_mem_delivered_drain {a : ConversAction}
    (ha : a ∈ delivered (drainLocalEvent links isLoggableLocal succeeds now h e).2.effects) :
    a ∈ (h.advance now e).actions := by
  rcases hfault : (h.advance now e).fault with _ | fault
  · rw [drainLocalEvent_of_ok links isLoggableLocal succeeds now hfault, Trace.effects_andThen,
      delivered_append, List.mem_append] at ha
    rcases ha with ha | ha
    · exact mem_of_mem_delivered ha
    · split at ha
      · cases ha
      · rw [Trace.effects_calls, delivered_logOf] at ha
        cases ha
  · simp only [drainLocalEvent, hfault] at ha
    cases ha

theorem entries_applyEvents : (applyEvents links exceptPeerId now h [e]).2.effects.filterMap
    ChatLogWriter.entryOf = (ChatLogWriter.logNetwork e).toList := by
  rw [applyEvents]
  split
  · exact entries_singleton _
  · dsimp only
    rw [applyEvents, Trace.effects_andThen, Trace.effects_calls, ite_self, List.append_nil,
      Trace.calls_andThen, List.filterMap_append, entries_dispatchActions, List.append_nil]
    exact entries_singleton _

theorem mem_of_mem_delivered_applyEvents {a : ConversAction}
    (ha : a ∈ delivered (applyEvents links exceptPeerId now h [e]).2.effects) :
    a ∈ (h.advance now e).actions := by
  rw [applyEvents] at ha
  split at ha
  · cases ha
  · dsimp only at ha
    rw [applyEvents, Trace.effects_andThen, Trace.effects_calls, ite_self, List.append_nil,
      Trace.calls_andThen, delivered_append] at ha
    exact mem_of_mem_delivered ha

/-- **Two turns of the loop on a message said in confidence on `c`**, with two texts: what is
delivered is for the sessions on `c`, and what is logged is logged on `c`. -/
structure InConfidence (h : Hub) (c : Int32) (effects effects' : List Effect) : Prop where
  entries : ∃ entry entry' : Option ChatLogEntry,
    effects.filterMap ChatLogWriter.entryOf = entry.toList ∧
      effects'.filterMap ChatLogWriter.entryOf = entry'.toList ∧
        Option.Rel ChatLogEntry.Retold entry entry' ∧ ∀ f ∈ entry, f.channel = some c
  delivered : ∀ a, a ∈ delivered effects ∨ a ∈ delivered effects' → ∀ sessionId,
    ActionRenderer.targetSession a = some sessionId →
      ∃ s, h.sessions.find? sessionId = some s ∧ s.channel = c

/-- The hub confines a message whatever its text is. -/
theorem isConfined_retold {c : Int32} (he : e.Retold e') :
    h.isConfined c e' = h.isConfined c e := by
  cases he <;> rfl

/-- What is refused of the one message is refused of the other. -/
theorem refused_retold {actions actions' : List ConversAction}
    (h : List.Forall₂ ConversAction.Retold actions actions') :
    ChatLogWriter.refused actions' = ChatLogWriter.refused actions := by
  rw [ChatLogWriter.refused, ChatLogWriter.refused]
  induction h with
  | nil => rfl
  | cons ha _ ih =>
    rw [List.any_cons, List.any_cons, ih]
    cases ha <;> rfl

theorem threw_drainLocalEvent (links : Links) (succeeds : ℕ → Bool) (now : DateTimeOffset) (h : Hub)
    (he : e.Retold e') :
    (drainLocalEvent links isLoggableLocal succeeds now h e').2.threw =
      (drainLocalEvent links isLoggableLocal succeeds now h e).2.threw := by
  obtain ⟨-, hfault, hactions⟩ := h.advance_retold now he
  have hcalls : ∀ (t : Trace) (l : List Effect), (t.andThen (.calls l)).threw = t.threw := by
    intro t l
    rw [Trace.threw_andThen, Trace.threw_calls, Bool.or_false]
  rcases hf : (h.advance now e).fault with _ | fault
  · rw [drainLocalEvent_of_ok links isLoggableLocal succeeds now hf,
      drainLocalEvent_of_ok links isLoggableLocal succeeds now (hfault.trans hf), hcalls, hcalls,
      threw_dispatchActions hactions]
  · rw [drainLocalEvent, drainLocalEvent, hfault, hf]

/-- What is logged of a message of a session is logged on its channel. -/
theorem drainEntry_say {sessionId text : Text} (htext : text ≠ []) :
    drainEntry links succeeds now h (.localSay sessionId text) =
      if (drainLocalEvent links isLoggableLocal succeeds now h (.localSay sessionId text)).2.threw ∨
        ChatLogWriter.refused (h.advance now (.localSay sessionId text)).actions then none
      else (h.sessions.find? sessionId).map fun s =>
        { kind := .channel, channel := some s.channel, fromCall := s.callsign, toCall := none,
          origin := .ofLocal, text := text } := by
  have hidentity : resolveLocalIdentity isLoggableLocal h (.localSay sessionId text) =
      (h.sessions.find? sessionId).map fun s => (s.callsign, s.channel) := rfl
  rw [drainEntry, hidentity]
  rcases h.sessions.find? sessionId with _ | s
  · simp
  · rw [Option.map_some, Option.bind_some, Option.map_some]
    dsimp only
    rw [ChatLogWriter.logLocal.eq_def]
    dsimp only
    rw [if_pos (mt List.length_eq_zero_iff.mp htext), ite_or]

/-- What is logged of a message of another host. -/
theorem logNetwork_message {user text : Text} {channel : Int32} (htext : text ≠ []) :
    ChatLogWriter.logNetwork (.hostChannelMessage user channel text) =
      some { kind := .channel, channel := some channel, fromCall := user, toCall := none,
             origin := .network, text := text } := by
  rw [ChatLogWriter.logNetwork, if_pos (mt List.length_eq_zero_iff.mp htext)]

theorem inConfidence_drainLocalEvent {c : Int32} (he : e.Retold e') (hne : e' ≠ e)
    (hconfined : h.isConfined c e = true) :
    InConfidence h c (drainLocalEvent links isLoggableLocal succeeds now h e).2.effects
      (drainLocalEvent links isLoggableLocal succeeds now h e').2.effects := by
  have hentry : Option.Rel ChatLogEntry.Retold (drainEntry links succeeds now h e)
        (drainEntry links succeeds now h e') ∧
      ∀ f ∈ drainEntry links succeeds now h e, f.channel = some c := by
    have hthrew := threw_drainLocalEvent links succeeds now h he
    have hrefused := refused_retold (h.advance_retold now he).2.2
    cases he with
    | same => exact absurd rfl hne
    | message user channel htext htext' =>
      have hnone : ∀ text, drainEntry links succeeds now h
          (.hostChannelMessage user channel text) = none := fun text => ite_self none
      rw [hnone, hnone]
      exact ⟨.none, nofun⟩
    | say sessionId htext htext' =>
      rw [Hub.isConfined, Bool.and_eq_true, Option.any_eq_true] at hconfined
      obtain ⟨-, s, hs, hchannel⟩ := hconfined
      obtain rfl : s.channel = c := of_decide_eq_true hchannel
      rw [drainEntry_say htext, drainEntry_say htext', hthrew, hrefused, hs]
      split
      · exact ⟨.none, nofun⟩
      · exact ⟨.some rfl, fun f hf => by cases hf; rfl⟩
  refine ⟨⟨_, _, entries_drainLocalEvent, entries_drainLocalEvent, hentry⟩, ?_⟩
  rintro a (ha | ha)
  · exact Hub.channel_of_confined hconfined a (mem_of_mem_delivered_drain ha)
  · exact Hub.channel_of_confined ((isConfined_retold he).trans hconfined) a
      (mem_of_mem_delivered_drain ha)

theorem inConfidence_applyEvents {c : Int32} (he : e.Retold e') (hne : e' ≠ e)
    (hconfined : h.isConfined c e = true) :
    InConfidence h c (applyEvents links exceptPeerId now h [e]).2.effects
      (applyEvents links exceptPeerId now h [e']).2.effects := by
  have hentry : Option.Rel ChatLogEntry.Retold (ChatLogWriter.logNetwork e)
        (ChatLogWriter.logNetwork e') ∧
      ∀ f ∈ ChatLogWriter.logNetwork e, f.channel = some c := by
    cases he with
    | same => exact absurd rfl hne
    | say sessionId htext htext' => exact ⟨.none, nofun⟩
    | message user channel htext htext' =>
      rw [Hub.isConfined, Bool.and_eq_true, decide_eq_true_eq] at hconfined
      obtain ⟨-, rfl⟩ := hconfined
      rw [logNetwork_message htext, logNetwork_message htext']
      exact ⟨.some rfl, fun f hf => by cases hf; rfl⟩
  refine ⟨⟨_, _, entries_applyEvents, entries_applyEvents, hentry⟩, ?_⟩
  rintro a (ha | ha)
  · exact Hub.channel_of_confined hconfined a (mem_of_mem_delivered_applyEvents ha)
  · exact Hub.channel_of_confined ((isConfined_retold he).trans hconfined) a
      (mem_of_mem_delivered_applyEvents ha)

end HostLink

end Convers
