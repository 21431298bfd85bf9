import Convers.Core.FanOut

/-!
# Refusals

A handler that will not do what it is asked answers before it changes anything: with a
notice to the session, or with nothing. `Convers.Hub.answer_cases` says that the two kinds of
answer do not mix, handler by handler, and `Convers.Hub.refuses` what it comes to: an answer
with a notice is that notice and leaves the hub and its store as they are, and so does an
event of a session that is not attached, or about a channel that is out of range. The one
event that an unknown session may submit is the join that attaches it
(`Convers.Hub.not_ignored_join`).
-/

namespace Convers

namespace ConversEvent

/-- The event that attaches a session. -/
def isJoin : ConversEvent → Bool
  | localJoin .. => true
  | _ => false

/-- The channel of an event that its handler checks; the sign-off of a user has none. -/
def checkedChannel? : ConversEvent → Option Int32
  | localJoin _ _ channel | localSwitchChannel _ channel | localInvite _ _ channel => some channel
  | localSetMode _ channel _ => some channel
  | hostUser _ _ _ _ toChannel _ _ => if toChannel = -1 then none else some toChannel
  | hostChannelMessage _ channel _ | hostTopic _ _ _ channel _ => some channel
  | hostInvite _ _ channel | hostMode channel _ => some channel
  | _ => none

end ConversEvent

/-- A refusal. -/
def ConversAction.isModeNotice : ConversAction → Bool
  | deliverModeNotice .. => true
  | _ => false

namespace Hub

/-- **What a refused request leaves.** -/
structure Refuses (h : Hub) (now : DateTimeOffset) (e : ConversEvent) : Prop where
  /-- A notice is the whole answer, and nothing has changed. -/
  noticed : ∀ a ∈ (h.advance now e).actions, a.isModeNotice = true →
    h.advance now e = ⟨h, [a], none⟩
  /-- Nobody but a session that is attached changes anything, or attaches itself. -/
  stranger : ∀ id, e.sessionId? = some id → h.sessions.find? id = none → e.isJoin = false →
    h.advance now e = ⟨h, [], none⟩
  /-- No channel out of range changes anything. -/
  outOfRange : ∀ channel, e.checkedChannel? = some channel → ChannelNumber.isValid channel = false →
    h.advance now e = ⟨h, [], none⟩

section Refusals

variable (h : Hub) (now : DateTimeOffset)

/-- An answer is a refusal, or has none in it. -/
def Decided (e : ConversEvent) : Prop :=
  (∃ sessionId channel reason, h.advance now e = h.refuse sessionId channel reason) ∨
    Without ConversAction.isModeNotice (h.advance now e).actions

theorem decided_localJoin (sessionId callsign : Text) (channel : Int32) :
    h.Decided now (.localJoin sessionId callsign channel) := by
  simp only [Decided, advance, localJoin]
  split
  · exact Or.inr without_nil
  · split
    · exact Or.inl ⟨_, _, _, rfl⟩
    · exact Or.inr (.cons rfl ((without_map fun _ => rfl).append
        (without_topicNoticeFor _ _ _ fun _ _ => rfl)))

theorem decided_localSwitchChannel (sessionId : Text) (channel : Int32) :
    h.Decided now (.localSwitchChannel sessionId channel) := by
  simp only [Decided, advance, localSwitchChannel]
  split
  · exact Or.inr without_nil
  · split
    · exact Or.inr without_nil
    · split
      · exact Or.inr without_nil
      · split
        · exact Or.inl ⟨_, _, _, rfl⟩
        · exact Or.inr ((without_map fun _ => rfl).append (.cons rfl
            ((without_map fun _ => rfl).append (without_topicNoticeFor _ _ _ fun _ _ => rfl))))

theorem decided_localSay (sessionId text : Text) : h.Decided now (.localSay sessionId text) := by
  simp only [Decided, advance, localSay]
  split
  · exact Or.inr without_nil
  · split
    · exact Or.inr without_nil
    · split
      · exact Or.inl ⟨_, _, _, rfl⟩
      · refine Or.inr (.append ?_ (without_map fun _ => rfl))
        split
        · exact without_nil
        · exact .cons rfl without_nil

theorem decided_localPrivateMessage (sessionId toUser text : Text) :
    h.Decided now (.localPrivateMessage sessionId toUser text) := by
  simp only [Decided, advance, localPrivateMessage]
  split
  · exact Or.inr without_nil
  · split
    · exact Or.inr without_nil
    · refine Or.inr (.append (.append ?_ ?_) (.cons rfl without_nil))
      · intro a ha
        obtain ⟨s, -, hs⟩ := List.mem_flatMap.mp ha
        rcases List.mem_cons.mp hs with rfl | hs
        · rfl
        · split at hs
          · rw [List.mem_singleton.mp hs]
            rfl
          · cases hs
      · split
        · split
          · split
            · exact .cons rfl without_nil
            · exact without_nil
          · exact without_nil
        · exact without_nil

theorem decided_localSetTopic (sessionId topic : Text) :
    h.Decided now (.localSetTopic sessionId topic) := by
  simp only [Decided, advance, localSetTopic]
  split
  · exact Or.inr without_nil
  · split
    · exact Or.inl ⟨_, _, _, rfl⟩
    · exact Or.inr (.cons rfl (without_map fun _ => rfl))

theorem decided_localSetMode (sessionId : Text) (channel : Int32) (options : Text) :
    h.Decided now (.localSetMode sessionId channel options) := by
  simp only [Decided, advance, localSetMode]
  split
  · exact Or.inr without_nil
  · split
    · exact Or.inr without_nil
    · split
      · exact Or.inl ⟨_, _, _, rfl⟩
      · split
        · exact Or.inr without_nil
        · exact Or.inr (.cons rfl (without_map fun _ => rfl))

theorem decided_localInvite (sessionId toUser : Text) (channel : Int32) :
    h.Decided now (.localInvite sessionId toUser channel) := by
  simp only [Decided, advance, localInvite]
  split
  · exact Or.inr without_nil
  · split
    · exact Or.inr without_nil
    · exact Or.inr ((without_map fun _ => rfl).append (.cons rfl without_nil))

theorem decided_hostUser (user host : Text) (timestamp : DateTimeOffset)
    (fromChannel toChannel : Int32) (personal : Text) (observer : Bool) :
    h.Decided now (.hostUser user host timestamp fromChannel toChannel personal observer) := by
  refine Or.inr ?_
  simp only [advance, hostUser]
  split
  · exact without_nil
  · split
    · exact without_nil
    · split
      · split
        · exact without_nil
        · exact without_map fun _ => rfl
      · split
        · exact without_nil
        · refine .append ?_ (without_map fun _ => rfl)
          split
          · exact without_map fun _ => rfl
          · exact without_nil

/-- **An answer is a refusal, or has none in it.** Each handler decides first and answers then, so
the two never mix. -/
theorem answer_cases (e : ConversEvent) : h.Decided now e := by
  cases e with
  | localJoin sessionId callsign channel => exact h.decided_localJoin now sessionId callsign channel
  | localSwitchChannel sessionId channel => exact h.decided_localSwitchChannel now sessionId channel
  | localSay sessionId text => exact h.decided_localSay now sessionId text
  | localPrivateMessage sessionId toUser text =>
    exact h.decided_localPrivateMessage now sessionId toUser text
  | localSetTopic sessionId topic => exact h.decided_localSetTopic now sessionId topic
  | localInvite sessionId toUser channel => exact h.decided_localInvite now sessionId toUser channel
  | localSetMode sessionId channel options =>
    exact h.decided_localSetMode now sessionId channel options
  | hostUser user host timestamp fromChannel toChannel personal observer =>
    exact h.decided_hostUser now user host timestamp fromChannel toChannel personal observer
  | hostChannelMessage | hostPrivateMessage | hostTopic | hostInvite | hostMode =>
    -- nothing, or one fan-out
    refine Or.inr ?_
    simp only [advance, hostChannelMessage, hostPrivateMessage, hostTopic, hostInvite, hostMode]
    repeat' split
    all_goals first
      | exact without_nil
      | exact without_map fun _ => rfl
  | localSetPersonal | localSetAway | localSetOperator | localLeave | hostPersonal | hostAway
  | hostOper =>
    refine Or.inr ?_
    simp only [advance, localSetPersonal, localSetAway, localSetOperator, localLeave, hostPersonal,
      hostAway, hostOper]
    repeat' split
    all_goals first
      | exact without_nil
      | exact .cons rfl without_nil
      | exact .cons rfl (without_map fun _ => rfl)
  | hostPing | hostLoop => exact Or.inr (.cons rfl without_nil)
  | hostPong | hostUnknown => exact Or.inr without_nil

/-- An event of a session that is not attached is ignored. -/
theorem advance_of_stranger {e : ConversEvent} {id : Text} (he : e.sessionId? = some id)
    (hs : h.sessions.find? id = none) (hjoin : e.isJoin = false) :
    h.advance now e = ⟨h, [], none⟩ := by
  cases e with
  | localJoin => cases hjoin
  | localSwitchChannel | localSay | localPrivateMessage | localSetPersonal | localSetAway
  | localSetTopic | localInvite | localSetMode | localSetOperator | localLeave =>
    cases he
    simp only [advance, localSwitchChannel, localSay, localPrivateMessage, localSetPersonal,
      localSetAway, localSetTopic, localInvite, localSetMode, localSetOperator, localLeave, hs,
      ignore]
  | _ => cases he

/-- An event about a channel out of range is ignored. -/
theorem advance_of_outOfRange {e : ConversEvent} {channel : Int32}
    (he : e.checkedChannel? = some channel) (hvalid : ChannelNumber.isValid channel = false) :
    h.advance now e = ⟨h, [], none⟩ := by
  have hnot : (!ChannelNumber.isValid channel) = true := by rw [hvalid]; rfl
  cases e with
  | localJoin | hostTopic | hostInvite | hostMode =>
    cases he
    simp only [advance, localJoin, hostTopic, hostInvite, hostMode]
    exact if_pos hnot
  | hostChannelMessage =>
    cases he
    simp only [advance, hostChannelMessage]
    exact if_pos (by rw [hnot, Bool.or_true])
  | localSwitchChannel | localInvite | localSetMode =>
    cases he
    simp only [advance, localSwitchChannel, localInvite, localSetMode]
    split
    · rfl
    · exact if_pos hnot
  | hostUser user host timestamp fromChannel toChannel personal observer =>
    rw [ConversEvent.checkedChannel?] at he
    split at he
    · cases he
    · rename_i hto
      cases he
      simp only [advance, hostUser, if_neg hto, if_pos hnot]
      split
      · rfl
      · split
        · rfl
        · rfl
  | _ => cases he

/-- **A refused request changes nothing.** It covers every event that can be refused, with a store
and without one. -/
theorem refuses (e : ConversEvent) : h.Refuses now e where
  noticed a ha hnotice := by
    rcases h.answer_cases now e with ⟨sessionId, channel, reason, heq⟩ | hquiet
    · rw [heq] at ha ⊢
      rw [List.mem_singleton.mp ha]
      rfl
    · rw [hquiet a ha] at hnotice
      cases hnotice
  stranger _ he hs hjoin := h.advance_of_stranger now he hs hjoin
  outOfRange _ he hvalid := h.advance_of_outOfRange now he hvalid

/-- A join is the event of a session that is not attached yet. -/
theorem not_ignored_join :
    (ConversEvent.localJoin "rf-1".toList "m0abc".toList 7).sessionId? = some "rf-1".toList ∧
      (fresh "NODE".toList).sessions.find? "rf-1".toList = none ∧
      (fresh "NODE".toList).advance exampleMoment (.localJoin "rf-1".toList "m0abc".toList 7) ≠
        ⟨fresh "NODE".toList, [], none⟩ := by
  decide +kernel

end Refusals

end Hub

end Convers
