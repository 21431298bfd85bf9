import Convers.Core.Presence

/-!
# Who is told

An answer goes out in copies, one for a session. `Convers.Hub.FansOut` is what the copies
of a message should be: one for each session that is on the channel, none for any other,
and one command for the network if the message is said here and may leave. The sessions
are told apart by their ids only, so two of one callsign get a copy each.

It holds in every state (`Convers.Hub.fansOut`): a fan-out is a selection of the table of
sessions, and a selection has an id at most once (`Convers.Table.countP_filter`).
-/

namespace Convers

/-- A channel message for a session. -/
def ConversAction.isMessageFor (sessionId : Text) : ConversAction → Bool
  | deliverChannelMessage id .. => id = sessionId
  | _ => false

namespace Hub

/-- A session may say a text: there is something to say, and the channel is not moderated
or the session is an operator. -/
def accepts (h : Hub) (s : LocalSession) (text : Text) : Bool :=
  text.length ≠ 0 && (.moderated ∉ h.modesOf s.channel || s.isOperator)

/-- Whether a session is on a channel, by its id. -/
def isOn (h : Hub) (channel : Int32) (sessionId : Text) : Bool :=
  (h.sessions.find? sessionId).any (·.channel = channel)

/-- **What the copies of an answer should be.** -/
structure FansOut (h : Hub) (now : DateTimeOffset) : Prop where
  /-- An event of the network sends nothing, -/
  leaf : ∀ e, e.isLocal = false → e ≠ .hostPing →
    ∀ a ∈ (h.advance now e).actions, a.isSend = false
  /-- but a ping, which sends one pong. -/
  pong : (h.advance now .hostPing).actions.filter ConversAction.isSend =
    [.sendPong pongSentinelNoMeasurement]
  /-- What a session says goes once to each other session of its channel, -/
  heard : ∀ s text, h.Attached s → h.accepts s text = true → ∀ id,
    (h.advance now (.localSay s.id text)).actions.countP (·.isMessageFor id) =
      if h.isOn s.channel id ∧ id ≠ s.id then 1 else 0
  /-- as it is said, -/
  verbatim : ∀ s text, h.Attached s → ∀ id channel user text',
    .deliverChannelMessage id channel user text' ∈
        (h.advance now (.localSay s.id text)).actions →
      channel = s.channel ∧ user = s.callsign ∧ text' = text
  /-- and once to the network, unless the channel is local. -/
  sent : ∀ s text, h.Attached s → h.accepts s text = true →
    (h.advance now (.localSay s.id text)).actions.filter ConversAction.isSend =
      if .localFlag ∈ h.modesOf s.channel then []
      else [.sendChannelMessage s.callsign s.channel text]
  /-- What another host says goes once to each session of the channel, -/
  relayed : ∀ user channel text, text.length ≠ 0 → ChannelNumber.isValid channel = true → ∀ id,
    (h.advance now (.hostChannelMessage user channel text)).actions.countP (·.isMessageFor id) =
      if h.isOn channel id then 1 else 0
  /-- and nothing else is answered. -/
  nothingElse : ∀ user channel text,
    ∀ a ∈ (h.advance now (.hostChannelMessage user channel text)).actions,
      ∃ id, a = .deliverChannelMessage id channel (Callsigns.normalize user) text

/-! ### The parts of an answer -/

/-- Actions with none of a kind among them. -/
def Without (kind : ConversAction → Bool) (actions : List ConversAction) : Prop :=
  ∀ a ∈ actions, kind a = false

section Without

variable {kind : ConversAction → Bool}

theorem without_nil : Without kind [] := nofun

theorem Without.cons {a : ConversAction} {l : List ConversAction} (ha : kind a = false)
    (hl : Without kind l) : Without kind (a :: l) := by
  intro b hb
  rcases List.mem_cons.mp hb with rfl | hb
  · exact ha
  · exact hl b hb

theorem Without.append {l m : List ConversAction} (hl : Without kind l) (hm : Without kind m) :
    Without kind (l ++ m) := by
  intro a ha
  exact (List.mem_append.mp ha).elim (hl a) (hm a)

/-- A fan-out is of one kind. -/
theorem without_map {β : Type*} {l : List β} {f : β → ConversAction}
    (hf : ∀ b, kind (f b) = false) : Without kind (l.map f) := by
  intro a ha
  obtain ⟨b, -, rfl⟩ := List.mem_map.mp ha
  exact hf b

theorem without_topicNoticeFor (h : Hub) (sessionId : Text) (channel : Int32)
    (hkind : ∀ topic setBy, kind (.deliverTopic sessionId channel topic setBy) = false) :
    Without kind (h.topicNoticeFor sessionId channel) := by
  rw [topicNoticeFor]
  split
  · split
    · exact .cons (hkind _ _) without_nil
    · exact without_nil
  · exact without_nil

end Without

section FanOut

variable {h : Hub} {now : DateTimeOffset}

/-- **A fan-out has one copy for each session it is for.** It is the count that rules out a second
copy as well as a missing one. -/
theorem countP_deliverToChannel (h : Hub) (channel : Int32) (user text : Text)
    (exceptSession : Option Text) (id : Text) :
    (h.deliverToChannel channel user text exceptSession).countP (·.isMessageFor id) =
      if h.isOn channel id ∧ some id ≠ exceptSession then 1 else 0 := by
  have hcount := h.sessions.countP_filter
    (fun s => s.channel = channel && some s.id ≠ exceptSession) id
  have hsame : (h.sessions.find? id).any (fun s => s.channel = channel && some s.id ≠ exceptSession)
      = true ↔ h.isOn channel id = true ∧ some id ≠ exceptSession := by
    rw [isOn]
    rcases hs : h.sessions.find? id with _ | s
    · simp
    · obtain rfl : s.id = id := Table.key_of_find? hs
      simp
  rw [deliverToChannel, List.countP_map]
  exact hcount.trans (if_congr hsame rfl rfl)

/-- A fan-out sends nothing. -/
theorem Deliveries.filter_isSend {actions : List ConversAction} (hdel : Deliveries actions) :
    actions.filter ConversAction.isSend = [] :=
  List.filter_eq_nil_iff.mpr fun a ha =>
    Bool.eq_false_iff.mp (ConversAction.isSend_of_isDeliver (hdel a ha))

/-- **What is said**, and may be said. The whole answer is written out, so who gets what can be read
off it. -/
theorem actions_localSay {s : LocalSession} (hs : h.Attached s) {text : Text}
    (haccepts : h.accepts s text = true) :
    (h.advance now (.localSay s.id text)).actions =
      (if .localFlag ∈ h.modesOf s.channel then []
        else [.sendChannelMessage s.callsign s.channel text]) ++
        h.deliverToChannel s.channel s.callsign text (some s.id) := by
  simp only [accepts, Bool.and_eq_true, decide_eq_true_eq, Bool.or_eq_true] at haccepts
  obtain ⟨htext, hspeaks⟩ := haccepts
  have hmay : ¬(.moderated ∈ h.modesOf s.channel ∧ !s.isOperator) := by
    rintro ⟨hmoderated, hnot⟩
    rcases hspeaks with hfree | hoperator
    · exact hfree hmoderated
    · rw [hoperator] at hnot
      cases hnot
  simp only [advance, localSay, (show h.sessions.find? s.id = some s from hs), if_neg htext,
    if_neg hmay]

/-- What may not be said is not passed on. -/
theorem isMessageFor_of_not_accepts {s : LocalSession} (hs : h.Attached s) {text : Text}
    (haccepts : h.accepts s text = false) :
    ∀ a ∈ (h.advance now (.localSay s.id text)).actions, ∀ id, a.isMessageFor id = false := by
  intro a ha id
  simp only [advance, localSay, (show h.sessions.find? s.id = some s from hs)] at ha
  split at ha
  · cases ha
  · rename_i htext
    split at ha
    · rw [List.mem_singleton.mp ha]
      rfl
    · rename_i hmay
      have hbad : h.accepts s text = true := by
        simp only [accepts, Bool.and_eq_true, decide_eq_true_eq, Bool.or_eq_true]
        refine ⟨htext, ?_⟩
        by_cases hmoderated : .moderated ∈ h.modesOf s.channel
        · exact Or.inr (by simpa [hmoderated] using hmay)
        · exact Or.inl hmoderated
      rw [haccepts] at hbad
      cases hbad

/-- **The fan-out is exact**, in every state. Each clause is a count over the answer of the hub, for
every text that is said to a channel or to a user. -/
theorem fansOut (h : Hub) (now : DateTimeOffset) : h.FansOut now where
  leaf e he hping a ha := by
    rcases h.advance_of_not_isLocal now he a ha with hdeliver | ⟨rfl, -⟩ | ⟨reason, rfl⟩
    · exact ConversAction.isSend_of_isDeliver hdeliver
    · exact absurd rfl hping
    · rfl
  pong := rfl
  heard s text hs haccepts id := by
    have hsend : (if .localFlag ∈ h.modesOf s.channel then []
        else [ConversAction.sendChannelMessage s.callsign s.channel text]).countP
          (·.isMessageFor id) = 0 := by
      split
      · rfl
      · rfl
    rw [actions_localSay hs haccepts, List.countP_append, hsend, Nat.zero_add,
      countP_deliverToChannel]
    refine if_congr (and_congr_right' ?_) rfl rfl
    simp
  verbatim s text hs id channel user text' hmem := by
    rcases haccepts : h.accepts s text with _ | _
    · have hnot := isMessageFor_of_not_accepts hs haccepts _ hmem id
      simp [ConversAction.isMessageFor] at hnot
    · rw [actions_localSay hs haccepts] at hmem
      rcases List.mem_append.mp hmem with hsend | hcopy
      · split at hsend
        · cases hsend
        · cases List.mem_singleton.mp hsend
      · obtain ⟨t, -, heq⟩ := List.mem_map.mp hcopy
        cases heq
        exact ⟨rfl, rfl, rfl⟩
  sent s text hs haccepts := by
    rw [actions_localSay hs haccepts, List.filter_append,
      (deliveries_deliverToChannel h s.channel s.callsign text (some s.id)).filter_isSend,
      List.append_nil]
    split
    · rfl
    · rfl
  relayed user channel text htext hvalid id := by
    have hactions : (h.advance now (.hostChannelMessage user channel text)).actions =
        h.deliverToChannel channel (Callsigns.normalize user) text none := by
      rw [advance, hostChannelMessage, if_neg (by simp [htext, hvalid])]
    rw [hactions, countP_deliverToChannel]
    refine if_congr ?_ rfl rfl
    simp
  nothingElse user channel text a ha := by
    rw [advance, hostChannelMessage] at ha
    split at ha
    · cases ha
    · obtain ⟨s, -, rfl⟩ := List.mem_map.mp ha
      exact ⟨s.id, rfl⟩

end FanOut

end Hub

end Convers
