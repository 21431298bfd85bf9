import Convers.Core.ConversHub

/-!
# The shape of an answer

Whatever the state, the answer to an event of a session is deliveries to other
sessions with at most one send among them. `Convers.Hub.announces` is whether there
is one, from the checks of the handler alone; `Convers.Hub.announcement` is what it
is; and `Convers.Hub.advance_of_announces` says where it stands. The answer to an
event of the network sends nothing, but for the pong to a ping
(`Convers.Hub.advance_of_not_isLocal`).

A dispatcher carries the actions out in order, so the deliveries that stand after
the send are those a failed send can lose: `Convers.Hub.isLastWord` is when there
are none.
-/

namespace Convers

namespace Hub

/-- Actions for the local sessions only. -/
def Deliveries (actions : List ConversAction) : Prop := ∀ a ∈ actions, a.isDeliver = true

theorem deliveries_nil : Deliveries [] := by simp [Deliveries]

theorem Deliveries.append {l m : List ConversAction} (hl : Deliveries l) (hm : Deliveries m) :
    Deliveries (l ++ m) := by
  intro a ha
  exact (List.mem_append.mp ha).elim (hl a) (hm a)

theorem deliveries_map {β : Type*} {l : List β} {f : β → ConversAction}
    (h : ∀ b, (f b).isDeliver = true) : Deliveries (l.map f) := by
  intro a ha
  obtain ⟨b, -, rfl⟩ := List.mem_map.mp ha
  exact h b

/-! ### The fan-outs deliver -/

variable (h : Hub)

theorem deliveries_deliverToChannel (channel : Int32) (fromUser text : Text)
    (exceptSession : Option Text) :
    Deliveries (h.deliverToChannel channel fromUser text exceptSession) :=
  deliveries_map fun _ => rfl

theorem deliveries_notifyChannelJoin (channel : Int32) (user : Text) (exceptSession : Option Text) :
    Deliveries (h.notifyChannelJoin channel user exceptSession) :=
  deliveries_map fun _ => rfl

theorem deliveries_notifyChannelLeave (channel : Int32) (user reason : Text)
    (exceptSession : Option Text) :
    Deliveries (h.notifyChannelLeave channel user reason exceptSession) :=
  deliveries_map fun _ => rfl

theorem deliveries_notifyTopic (channel : Int32) (topic setBy : Text) :
    Deliveries (h.notifyTopic channel topic setBy) :=
  deliveries_map fun _ => rfl

theorem deliveries_notifyModeChange (channel : Int32) (modes : ChannelMode) :
    Deliveries (h.notifyModeChange channel modes) :=
  deliveries_map fun _ => rfl

theorem deliveries_topicNoticeFor (sessionId : Text) (channel : Int32) :
    Deliveries (h.topicNoticeFor sessionId channel) := by
  rw [topicNoticeFor]
  split
  · split
    · simp [Deliveries, ConversAction.isDeliver]
    · exact deliveries_nil
  · exact deliveries_nil

theorem deliveries_refuse (sessionId : Text) (channel : Int32) (reason : String) :
    Deliveries (h.refuse sessionId channel reason).actions := by
  simp [Deliveries, refuse, ConversAction.isDeliver]

/-! ### The send of a local event -/

/-- A channel lets a callsign in: it is open, or the callsign is invited or an operator
everywhere. -/
def admits (channel : Int32) (callsign : Text) : Bool :=
  ChannelNumber.isValid channel &&
    (!ChannelModes.requiresInvite (h.modesOf channel) || h.isInvitedTo callsign channel ||
      h.isGlobalOperator callsign)

/-- Whether the profile of a callsign can be kept: the store takes no blank one. -/
def keepsProfile (callsign : Text) : Bool :=
  h.store.isNone || !isNullOrWhiteSpace (Callsigns.normalize callsign)

/-- Whether a session may move to a channel. -/
def allows (channel : Int32) (s : LocalSession) : Bool :=
  ChannelNumber.isValid channel && s.channel ≠ channel &&
    (!ChannelModes.requiresInvite (h.modesOf channel) || s.isOperator ||
      channel ∈ s.invitedChannels)

/-- Whether an event of a session gets past the checks of its handler to a send. -/
def announces : ConversEvent → Bool
  | .localJoin _ callsign channel => h.admits channel (Callsigns.normalize callsign)
  | .localSwitchChannel sessionId channel => (h.sessions.find? sessionId).any fun s =>
    h.allows channel s
  | .localSay sessionId text => (h.sessions.find? sessionId).any fun s =>
    text.length ≠ 0 && (.moderated ∉ h.modesOf s.channel || s.isOperator) &&
      .localFlag ∉ h.modesOf s.channel
  | .localPrivateMessage sessionId _ text => (h.sessions.find? sessionId).any fun _ =>
    text.length ≠ 0
  | .localSetPersonal sessionId _ => (h.sessions.find? sessionId).any fun s =>
    h.keepsProfile s.callsign
  | .localSetAway sessionId _ => (h.sessions.find? sessionId).isSome
  | .localSetTopic sessionId _ => (h.sessions.find? sessionId).any fun s =>
    .topicLocked ∉ h.modesOf s.channel || s.isOperator
  | .localInvite sessionId _ channel => (h.sessions.find? sessionId).any fun _ =>
    ChannelNumber.isValid channel
  | .localSetMode sessionId channel options => (h.sessions.find? sessionId).any fun s =>
    ChannelNumber.isValid channel &&
      (h.isGlobalOperator s.callsign || h.isChannelOperator s.callsign channel) &&
      ChannelModes.apply (h.modesOf channel) options (channel = ChannelNumber.random) ≠
        h.modesOf channel
  | .localLeave sessionId _ => (h.sessions.find? sessionId).isSome
  | _ => false

/-- What an event of a session that gets past the checks sends. -/
def announcement (now : DateTimeOffset) : ConversEvent → Option ConversAction
  | .localJoin _ callsign channel =>
    let call := Callsigns.normalize callsign
    some (.sendUser call h.hostName now (-1) channel
      (((h.store.bind (·.getProfile call)).map UserProfile.personal).getD []))
  | .localSwitchChannel sessionId channel => (h.sessions.find? sessionId).map fun s =>
    .sendUser s.callsign h.hostName now s.channel channel s.personal
  | .localSay sessionId text => (h.sessions.find? sessionId).map fun s =>
    .sendChannelMessage s.callsign s.channel text
  | .localPrivateMessage sessionId toUser text => (h.sessions.find? sessionId).map fun s =>
    .sendPrivateMessage s.callsign (Callsigns.normalize toUser) text
  | .localSetPersonal sessionId personal => (h.sessions.find? sessionId).map fun s =>
    .sendPersonal s.callsign h.hostName (makePersonalConsistent personal)
  | .localSetAway sessionId away => (h.sessions.find? sessionId).map fun s =>
    .sendAway s.callsign h.hostName now (trim away)
  | .localSetTopic sessionId topic => (h.sessions.find? sessionId).map fun s =>
    .sendTopic s.callsign h.hostName now s.channel (trim topic)
  | .localInvite sessionId toUser channel => (h.sessions.find? sessionId).map fun s =>
    .sendInvite s.callsign (Callsigns.normalize toUser) channel
  | .localSetMode _ channel options =>
    some (.sendMode channel (ChannelModes.toWire
      (ChannelModes.apply (h.modesOf channel) options (channel = ChannelNumber.random))))
  | .localLeave sessionId reason => (h.sessions.find? sessionId).map fun s =>
    .sendUser s.callsign h.hostName now s.channel (-1) reason
  | _ => none

/-- What is announced is content. -/
theorem isContent_announcement {h : Hub} {now : DateTimeOffset} {e : ConversEvent}
    {send : ConversAction} (hsend : h.announcement now e = some send) : send.isContent = true := by
  cases e with
  | localJoin sessionId callsign channel =>
    cases hsend
    rfl
  | localSetMode sessionId channel options =>
    cases hsend
    rfl
  | localSwitchChannel | localSay | localPrivateMessage | localSetPersonal | localSetAway
  | localSetTopic | localInvite | localLeave =>
    simp only [announcement] at hsend
    obtain ⟨s, -, rfl⟩ := Option.map_eq_some_iff.mp hsend
    rfl
  | _ => cases hsend

/-- Whether nobody here is told anything after the send of an event: the channel it is
about has no other session, and a newcomer finds no topic. -/
def isLastWord : ConversEvent → Bool
  | .localJoin sessionId _ channel | .localSwitchChannel sessionId channel =>
    (h.sessionsOn channel (some sessionId)).isEmpty && (h.topicNoticeFor sessionId channel).isEmpty
  | .localSay sessionId _ | .localLeave sessionId _ => (h.sessions.find? sessionId).any fun s =>
    (h.sessionsOn s.channel (some sessionId)).isEmpty
  | .localPrivateMessage .. | .localSetPersonal .. | .localSetAway .. | .localInvite .. => true
  | .localSetMode _ channel _ => (h.sessionsOn channel none).isEmpty
  | _ => false

/-- **The shape of the answer to a local event**: deliveries, with the announcement
among them when it gets past the checks. -/
def IsShaped (now : DateTimeOffset) (e : ConversEvent) : Prop :=
  (h.announces e = true → ∃ before send after, h.announcement now e = some send ∧
    (h.advance now e).actions = before ++ send :: after ∧ Deliveries before ∧
    Deliveries after ∧ (after = [] ↔ h.isLastWord e = true)) ∧
  (h.announces e = false → Deliveries (h.advance now e).actions)

section Handlers

variable {h} (now : DateTimeOffset)

theorem IsShaped.silent {e : ConversEvent} (hann : h.announces e = false)
    (hactions : Deliveries (h.advance now e).actions) : h.IsShaped now e :=
  ⟨fun hann' => absurd hann' (by simp [hann]), fun _ => hactions⟩

theorem IsShaped.said {e : ConversEvent} {send : ConversAction}
    (before after : List ConversAction) (hann : h.announces e = true)
    (hsend : h.announcement now e = some send)
    (hactions : (h.advance now e).actions = before ++ send :: after) (hbefore : Deliveries before)
    (hafter : Deliveries after) (hlast : after = [] ↔ h.isLastWord e = true) : h.IsShaped now e :=
  ⟨fun _ => ⟨before, send, after, hsend, hactions, hbefore, hafter, hlast⟩,
    fun hann' => absurd hann (by simp [hann'])⟩

/-- The sessions on a channel but one, after a store of that one. -/
theorem sessionsOn_putSession (h : Hub) (session : LocalSession) (channel : Int32) :
    (h.putSession session).sessionsOn channel (some session.id) =
      h.sessionsOn channel (some session.id) :=
  h.sessions.filter_records_put fun b hb => by simp [hb]

/-- The sessions on a channel but one, after the removal of that one. -/
theorem sessionsOn_remove (h : Hub) (sessionId : Text) (channel : Int32) :
    { h with sessions := h.sessions.remove sessionId }.sessionsOn channel (some sessionId) =
      h.sessionsOn channel (some sessionId) :=
  h.sessions.filter_records_remove fun b hb => by simp [hb]

/-- The session a join attaches. -/
def joinedSession (h : Hub) (sessionId callsign : Text) (channel : Int32) : LocalSession where
  id := sessionId
  callsign := Callsigns.normalize callsign
  channel := channel
  personal := ((h.store.bind (·.getProfile (Callsigns.normalize callsign))).map
    UserProfile.personal).getD []
  nickname := ((h.store.bind (·.getProfile (Callsigns.normalize callsign))).map
    UserProfile.nickname).getD []
  away := []
  isOperator := h.isGlobalOperator (Callsigns.normalize callsign)
  invitedChannels := h.invitesFor (Callsigns.normalize callsign)
  joinedAt := now

/-- The session a switch leaves. -/
def switchedSession (h : Hub) (s : LocalSession) (channel : Int32) : LocalSession :=
  { s with
    channel := channel
    isOperator := h.isGlobalOperator s.callsign || h.isChannelOperator s.callsign channel
    joinedAt := now }

/-- A session stored, and its entry with it. -/
def storeSession (h : Hub) (session : LocalSession) : Hub :=
  (h.putSession session).upsertLocalUser session

/-- What an arrival tells the sessions here. -/
def arrivalNotices (h : Hub) (session : LocalSession) : List ConversAction :=
  h.notifyChannelJoin session.channel session.callsign (some session.id) ++
    h.topicNoticeFor session.id session.channel

theorem deliveries_arrivalNotices (h : Hub) (session : LocalSession) :
    Deliveries (h.arrivalNotices session) :=
  (deliveries_notifyChannelJoin h _ _ _).append (deliveries_topicNoticeFor h _ _)

/-- An arrival tells nobody iff the channel is empty and has no topic. -/
theorem arrivalNotices_eq_nil (h : Hub) (session : LocalSession) :
    (h.storeSession session).arrivalNotices session = [] ↔
      ((h.sessionsOn session.channel (some session.id)).isEmpty &&
        (h.topicNoticeFor session.id session.channel).isEmpty) = true := by
  rw [arrivalNotices, List.append_eq_nil_iff, Bool.and_eq_true, List.isEmpty_iff,
    List.isEmpty_iff, ← sessionsOn_putSession h session]
  exact and_congr_left fun _ => List.map_eq_nil_iff

/-- **A join that is let in.** With its counterpart for a join that is refused nothing else has to
look into the handler. -/
theorem localJoin_of_admits (sessionId : Text) {callsign : Text} {channel : Int32}
    (hadm : h.admits channel (Callsigns.normalize callsign) = true) :
    h.localJoin now sessionId callsign channel =
      let session := joinedSession now h sessionId callsign channel
      let h' := h.storeSession session
      ⟨h', .sendUser session.callsign h.hostName now (-1) channel session.personal ::
        h'.arrivalNotices session, none⟩ := by
  simp only [admits, Bool.and_eq_true, Bool.or_eq_true, Bool.not_eq_true'] at hadm
  obtain ⟨hvalid, hgate⟩ := hadm
  rw [localJoin, if_neg (by simp [hvalid]), if_neg]
  · rfl
  · simp only [Bool.and_eq_true, Bool.not_eq_true']
    rintro ⟨⟨hreq, hinv⟩, hop⟩
    simp [hreq, hinv, hop] at hgate

/-- A join that is not leaves the state. -/
theorem localJoin_of_not_admits (sessionId : Text) {callsign : Text} {channel : Int32}
    (hadm : h.admits channel (Callsigns.normalize callsign) = false) :
    (h.localJoin now sessionId callsign channel).hub = h ∧
      Deliveries (h.localJoin now sessionId callsign channel).actions := by
  rw [localJoin]
  by_cases hvalid : ChannelNumber.isValid channel
  · rw [if_neg (by simp [hvalid]), if_pos]
    · exact ⟨rfl, deliveries_refuse h sessionId channel _⟩
    · simp only [admits, hvalid, Bool.true_and, Bool.or_eq_false_iff, Bool.not_eq_false'] at hadm
      simp [hadm]
  · rw [if_pos (by simpa using hvalid)]
    exact ⟨rfl, deliveries_nil⟩

/-- **A switch that is allowed.** A switch differs from a join in the leave it tells the channel
that is left. -/
theorem localSwitchChannel_of_allows {s : LocalSession} {channel : Int32}
    (hs : h.sessions.find? s.id = some s) (hall : h.allows channel s = true) :
    h.localSwitchChannel now s.id channel =
      let session := switchedSession now h s channel
      let h' := h.storeSession session
      ⟨h', h.notifyChannelLeave s.channel s.callsign "switched channel".toList (some s.id) ++
        .sendUser s.callsign h.hostName now s.channel channel s.personal ::
          h'.arrivalNotices session, none⟩ := by
  simp only [allows, Bool.and_eq_true, Bool.or_eq_true, Bool.not_eq_true', decide_eq_true_eq]
    at hall
  obtain ⟨⟨hvalid, hsame⟩, hgate⟩ := hall
  simp only [localSwitchChannel, hs]
  rw [if_neg (by simp [hvalid]), if_neg hsame, if_neg]
  · rfl
  · simp only [Bool.and_eq_true, Bool.not_eq_true', decide_eq_true_eq]
    rintro ⟨⟨hreq, hop⟩, hinv⟩
    simp [hreq, hinv, hop] at hgate

/-- A switch that is not leaves the state. -/
theorem localSwitchChannel_of_not_allows {s : LocalSession} {channel : Int32}
    (hs : h.sessions.find? s.id = some s) (hall : h.allows channel s = false) :
    (h.localSwitchChannel now s.id channel).hub = h ∧
      Deliveries (h.localSwitchChannel now s.id channel).actions := by
  simp only [localSwitchChannel, hs]
  by_cases hvalid : ChannelNumber.isValid channel
  · rw [if_neg (by simp [hvalid])]
    by_cases hsame : s.channel = channel
    · rw [if_pos hsame]
      exact ⟨rfl, deliveries_nil⟩
    · rw [if_neg hsame, if_pos]
      · exact ⟨rfl, deliveries_refuse h s.id channel _⟩
      · simp only [allows, hvalid, Bool.true_and, hsame, Bool.or_eq_false_iff, ne_eq, decide_not,
          decide_false, Bool.not_false, Bool.not_eq_false', decide_eq_false_iff_not] at hall
        simp [hall]
  · rw [if_pos (by simpa using hvalid)]
    exact ⟨rfl, deliveries_nil⟩

theorem isShaped_localJoin (sessionId callsign : Text) (channel : Int32) :
    h.IsShaped now (.localJoin sessionId callsign channel) := by
  rcases hadm : h.admits channel (Callsigns.normalize callsign) with _ | _
  · exact .silent now hadm (localJoin_of_not_admits now sessionId hadm).2
  · refine .said now [] _ hadm rfl ?_ deliveries_nil
      (deliveries_arrivalNotices _ (joinedSession now h sessionId callsign channel))
      (arrivalNotices_eq_nil h _)
    rw [advance, localJoin_of_admits now sessionId hadm]
    rfl

theorem isShaped_localSwitchChannel (sessionId : Text) (channel : Int32) :
    h.IsShaped now (.localSwitchChannel sessionId channel) := by
  rcases hs : h.sessions.find? sessionId with _ | s
  · refine .silent now (by simp [announces, hs]) ?_
    simp only [advance, localSwitchChannel, hs]
    exact deliveries_nil
  · obtain rfl : s.id = sessionId := Table.key_of_find? hs
    rcases hall : h.allows channel s with _ | _
    · exact .silent now (by simp [announces, hs, hall])
        (localSwitchChannel_of_not_allows now hs hall).2
    · refine .said now (h.notifyChannelLeave s.channel s.callsign
          "switched channel".toList (some s.id)) _ (by simp [announces, hs, hall])
        (by rw [announcement, hs]; rfl) ?_ (deliveries_notifyChannelLeave h _ _ _ _)
        (deliveries_arrivalNotices _ (switchedSession now h s channel))
        (arrivalNotices_eq_nil h _)
      rw [advance, localSwitchChannel_of_allows now hs hall]

theorem isShaped_localSay (sessionId text : Text) : h.IsShaped now (.localSay sessionId text) := by
  rcases hs : h.sessions.find? sessionId with _ | s
  · refine .silent now (by simp [announces, hs]) ?_
    simp only [advance, localSay, hs]
    exact deliveries_nil
  · by_cases htext : text.length = 0
    · refine .silent now (by simp [announces, hs, htext]) ?_
      simp only [advance, localSay, hs, if_pos htext]
      exact deliveries_nil
    · by_cases hmod : .moderated ∈ h.modesOf s.channel ∧ !s.isOperator
      · refine .silent now ?_ ?_
        · simp only [Bool.not_eq_true'] at hmod
          simp [announces, hs, hmod]
        · simp only [advance, localSay, hs, if_neg htext, if_pos hmod]
          exact deliveries_refuse h sessionId s.channel _
      · have hsay : (h.advance now (.localSay sessionId text)).actions =
            (if .localFlag ∈ h.modesOf s.channel then []
              else [.sendChannelMessage s.callsign s.channel text]) ++
            h.deliverToChannel s.channel s.callsign text (some sessionId) := by
          simp only [advance, localSay, hs, if_neg htext, if_neg hmod]
        by_cases hlocal : .localFlag ∈ h.modesOf s.channel
        · refine .silent now (by simp [announces, hs, hlocal]) ?_
          rw [hsay, if_pos hlocal]
          exact deliveries_deliverToChannel h s.channel s.callsign text (some sessionId)
        · refine .said now [] _ ?_ (by rw [announcement, hs]; rfl)
            (by rw [hsay, if_neg hlocal]; rfl) deliveries_nil
            (deliveries_deliverToChannel h s.channel s.callsign text (some sessionId)) ?_
          · simp only [announces, hs, Option.any_some, hlocal]
            simp only [Bool.not_eq_true', not_and, Bool.not_eq_false] at hmod
            by_cases hm : .moderated ∈ h.modesOf s.channel
            · simpa [htext] using Or.inr (hmod hm)
            · simpa [htext] using Or.inl hm
          · simp [isLastWord, hs, deliverToChannel, List.map_eq_nil_iff]

theorem isShaped_localPrivateMessage (sessionId toUser text : Text) :
    h.IsShaped now (.localPrivateMessage sessionId toUser text) := by
  rcases hs : h.sessions.find? sessionId with _ | s
  · refine .silent now (by simp [announces, hs]) ?_
    simp only [advance, localPrivateMessage, hs]
    exact deliveries_nil
  · by_cases htext : text.length = 0
    · refine .silent now (by simp [announces, hs, htext]) ?_
      simp only [advance, localPrivateMessage, hs, if_pos htext]
      exact deliveries_nil
    · refine .said now _ [] (by simp [announces, hs, htext])
        (by rw [announcement, hs]; rfl)
        (by simp only [advance, localPrivateMessage, hs, if_neg htext]; rfl) ?_ deliveries_nil
        (by simp [isLastWord])
      refine Deliveries.append ?_ ?_
      · intro a ha
        obtain ⟨t, -, ht⟩ := List.mem_flatMap.mp ha
        rcases List.mem_cons.mp ht with rfl | ht
        · rfl
        · split at ht
          · rw [List.mem_singleton.mp ht]
            rfl
          · cases ht
      · split
        · split
          · split
            · simp [Deliveries, ConversAction.isDeliver]
            · exact deliveries_nil
          · exact deliveries_nil
        · exact deliveries_nil

/-- The callsign the store keeps a profile under is the one it is looked up by. -/
theorem persistProfile_callsign (store : ConversStore) (callsign : Text) (blank : UserProfile)
    (hblank : blank.callsign = callsign) :
    Callsigns.normalize ((store.getProfile callsign).getD blank).callsign =
      Callsigns.normalize callsign := by
  rcases hp : store.getProfile callsign with _ | profile
  · rw [Option.getD_none, hblank]
  · rw [Option.getD_some, (Table.key_of_find? hp : profile.callsign = _),
      Callsigns.normalize_normalize]

/-- **A profile that can be kept is kept in the store, and changes nothing else.** It is the only
handler that may throw, and this is when it does not. -/
theorem persistProfile_of_keepsProfile (h : Hub) (session : LocalSession)
    (hkeep : h.keepsProfile session.callsign = true) :
    ∃ store, h.persistProfile now session = .ok { h with store := store } := by
  rcases hstore : h.store with _ | store
  · exact ⟨none, by simp only [persistProfile, hstore]; rw [← hstore]⟩
  · have hblank : ¬isNullOrWhiteSpace (Callsigns.normalize session.callsign) = true := by
      simpa [keepsProfile, hstore] using hkeep
    simp only [persistProfile, hstore, ConversStore.upsertProfile]
    rw [persistProfile_callsign store session.callsign _ rfl, if_neg hblank]
    exact ⟨_, rfl⟩

/-- The profile of a valid name can be kept. -/
theorem keepsProfile_of_isValidName (h : Hub) {callsign : Text}
    (hcall : Callsigns.isValidName callsign = true) : h.keepsProfile callsign = true := by
  have hvalid := Callsigns.isValidName_normalize hcall
  simp only [Callsigns.isValidName, Bool.and_eq_true, decide_eq_true_eq, List.all_eq_true,
    Bool.not_eq_true', Bool.or_eq_false_iff] at hvalid
  obtain ⟨hne, hall⟩ := hvalid
  obtain ⟨c, s, hcons⟩ := List.exists_cons_of_ne_nil (List.ne_nil_of_length_pos
    (Nat.pos_of_ne_zero hne))
  have hfirst : isWhiteSpace c = false := (hall c (by simp [hcons])).1.1
  simp [keepsProfile, hcons, isNullOrWhiteSpace, hfirst]

/-- One that cannot is refused by the store. -/
theorem persistProfile_of_not_keepsProfile (h : Hub) (session : LocalSession)
    (hkeep : h.keepsProfile session.callsign = false) :
    h.persistProfile now session = .error .argument := by
  rcases hstore : h.store with _ | store
  · simp [keepsProfile, hstore] at hkeep
  · have hblank : isNullOrWhiteSpace (Callsigns.normalize session.callsign) = true := by
      simpa [keepsProfile, hstore] using hkeep
    simp only [persistProfile, hstore, ConversStore.upsertProfile]
    rw [persistProfile_callsign store session.callsign _ rfl, if_pos hblank]
    rfl

/-- The session with its personal text set. -/
def personalSession (s : LocalSession) (personal : Text) : LocalSession :=
  { s with personal := makePersonalConsistent personal }

/-- **A personal text that is kept.** What is announced is the text the session has afterwards, not
the one that was typed. -/
theorem localSetPersonal_of_keepsProfile {s : LocalSession} (personal : Text)
    (hs : h.sessions.find? s.id = some s) (hkeep : h.keepsProfile s.callsign = true) :
    ∃ store, h.localSetPersonal now s.id personal =
      ⟨{ h.storeSession (personalSession s personal) with store := store },
        [.sendPersonal s.callsign h.hostName (makePersonalConsistent personal)], none⟩ := by
  obtain ⟨store, hstore⟩ := persistProfile_of_keepsProfile now
    (h.storeSession (personalSession s personal)) (personalSession s personal) hkeep
  refine ⟨store, ?_⟩
  simp only [localSetPersonal, hs]
  rw [← personalSession, ← storeSession, hstore]
  rfl

/-- One that is not changes the session all the same. -/
theorem localSetPersonal_of_not_keepsProfile {s : LocalSession} (personal : Text)
    (hs : h.sessions.find? s.id = some s) (hkeep : h.keepsProfile s.callsign = false) :
    h.localSetPersonal now s.id personal =
      ⟨h.storeSession (personalSession s personal), [], some .argument⟩ := by
  have hstore := persistProfile_of_not_keepsProfile now
    (h.storeSession (personalSession s personal)) (personalSession s personal) hkeep
  simp only [localSetPersonal, hs]
  rw [← personalSession, ← storeSession, hstore]

theorem isShaped_localSetPersonal (sessionId personal : Text) :
    h.IsShaped now (.localSetPersonal sessionId personal) := by
  rcases hs : h.sessions.find? sessionId with _ | s
  · refine .silent now (by simp [announces, hs]) ?_
    simp only [advance, localSetPersonal, hs]
    exact deliveries_nil
  · obtain rfl : s.id = sessionId := Table.key_of_find? hs
    rcases hkeep : h.keepsProfile s.callsign with _ | _
    · refine .silent now (by simp [announces, hs, hkeep]) ?_
      rw [advance, localSetPersonal_of_not_keepsProfile now personal hs hkeep]
      exact deliveries_nil
    · obtain ⟨store, hstore⟩ := localSetPersonal_of_keepsProfile now personal hs hkeep
      refine .said now [] [] (by simp [announces, hs, hkeep])
        (by rw [announcement, hs]; rfl) ?_ deliveries_nil deliveries_nil (by simp [isLastWord])
      rw [advance, hstore]
      rfl

theorem isShaped_localSetAway (sessionId away : Text) :
    h.IsShaped now (.localSetAway sessionId away) := by
  rcases hs : h.sessions.find? sessionId with _ | s
  · refine .silent now (by simp [announces, hs]) ?_
    simp only [advance, localSetAway, hs]
    exact deliveries_nil
  · refine .said now [] [] (by simp [announces, hs])
      (by rw [announcement, hs]; rfl) ?_ deliveries_nil deliveries_nil (by simp [isLastWord])
    simp only [advance, localSetAway, hs]
    rfl

theorem isShaped_localSetTopic (sessionId topic : Text) :
    h.IsShaped now (.localSetTopic sessionId topic) := by
  rcases hs : h.sessions.find? sessionId with _ | s
  · refine .silent now (by simp [announces, hs]) ?_
    simp only [advance, localSetTopic, hs]
    exact deliveries_nil
  · by_cases hlock : .topicLocked ∈ h.modesOf s.channel ∧ !s.isOperator
    · refine .silent now ?_ ?_
      · simp only [Bool.not_eq_true'] at hlock
        simp [announces, hs, hlock]
      · simp only [advance, localSetTopic, hs, if_pos hlock]
        exact deliveries_refuse h sessionId s.channel _
    · refine .said now [] _ ?_ (by rw [announcement, hs]; rfl)
        (by simp only [advance, localSetTopic, hs, if_neg hlock]; rfl) deliveries_nil
        (deliveries_notifyTopic (h.applyTopic s.channel (trim topic) s.callsign now) s.channel
          (trim topic) s.callsign) ?_
      · simp only [announces, hs, Option.any_some, Bool.or_eq_true, decide_eq_true_eq]
        simp only [Bool.not_eq_true', not_and, Bool.not_eq_false] at hlock
        exact or_iff_not_imp_left.mpr fun hm => hlock (not_not.mp hm)
      · -- the one who sets the topic is told
        refine iff_of_false (fun hnil => ?_) (by simp [isLastWord])
        have hmem : s ∈ (h.applyTopic s.channel (trim topic) s.callsign now).sessionsOn
            s.channel none := by
          refine List.mem_filter.mpr ⟨Table.mem_of_find? hs, by simp⟩
        rw [notifyTopic, List.map_eq_nil_iff] at hnil
        rw [hnil] at hmem
        cases hmem

theorem isShaped_localInvite (sessionId toUser : Text) (channel : Int32) :
    h.IsShaped now (.localInvite sessionId toUser channel) := by
  rcases hs : h.sessions.find? sessionId with _ | s
  · refine .silent now (by simp [announces, hs]) ?_
    simp only [advance, localInvite, hs]
    exact deliveries_nil
  · by_cases hvalid : ChannelNumber.isValid channel
    · refine .said now _ [] (by simp [announces, hs, hvalid])
        (by rw [announcement, hs]; rfl)
        (by simp only [advance, localInvite, hs]; rw [if_neg (by simp [hvalid])])
        (deliveries_map fun _ => ?_) deliveries_nil (by simp [isLastWord])
      rfl
    · refine .silent now (by simp [announces, hs, hvalid]) ?_
      simp only [advance, localInvite, hs]
      rw [if_pos (by simpa using hvalid)]
      exact deliveries_nil

theorem isShaped_localSetMode (sessionId : Text) (channel : Int32) (options : Text) :
    h.IsShaped now (.localSetMode sessionId channel options) := by
  rcases hs : h.sessions.find? sessionId with _ | s
  · refine .silent now (by simp [announces, hs]) ?_
    simp only [advance, localSetMode, hs]
    exact deliveries_nil
  · by_cases hvalid : ChannelNumber.isValid channel
    · by_cases hop : !h.isGlobalOperator s.callsign && !h.isChannelOperator s.callsign channel
      · refine .silent now ?_ ?_
        · simp only [Bool.and_eq_true, Bool.not_eq_true'] at hop
          simp [announces, hs, hop]
        · simp only [advance, localSetMode, hs]
          rw [if_neg (by simp [hvalid]), if_pos hop]
          exact deliveries_refuse h sessionId channel _
      · by_cases hsame : ChannelModes.apply (h.modesOf channel) options
            (channel = ChannelNumber.random) = h.modesOf channel
        · refine .silent now (by simp [announces, hs, hsame]) ?_
          simp only [advance, localSetMode, hs]
          rw [if_neg (by simp [hvalid]), if_neg hop, if_pos hsame]
          exact deliveries_nil
        · refine .said now [] _ ?_ rfl ?_ deliveries_nil
            (deliveries_notifyModeChange (h.setModes channel (ChannelModes.apply
              (h.modesOf channel) options (channel = ChannelNumber.random))) channel
              (ChannelModes.apply (h.modesOf channel) options (channel = ChannelNumber.random)))
            ?_
          · simp only [Bool.and_eq_true, Bool.not_eq_true', not_and, Bool.not_eq_false] at hop
            simp only [announces, hs, Option.any_some, hvalid, Bool.true_and, Bool.and_eq_true,
              Bool.or_eq_true, decide_eq_true_eq]
            exact ⟨or_iff_not_imp_left.mpr fun hg => hop (by simpa using hg), hsame⟩
          · simp only [advance, localSetMode, hs]
            rw [if_neg (by simp [hvalid]), if_neg hop, if_neg hsame]
            rfl
          · rw [notifyModeChange, List.map_eq_nil_iff, isLastWord, List.isEmpty_iff]
            rfl
    · refine .silent now (by simp [announces, hs, hvalid]) ?_
      simp only [advance, localSetMode, hs]
      rw [if_pos (by simpa using hvalid)]
      exact deliveries_nil

theorem isShaped_localSetOperator (sessionId : Text) (channel : Int32) (grant : Bool) :
    h.IsShaped now (.localSetOperator sessionId channel grant) := by
  refine .silent now rfl ?_
  simp only [advance, localSetOperator]
  split
  · exact deliveries_nil
  · exact deliveries_nil

/-- The state without a session and its entry. -/
def dropSession (h : Hub) (s : LocalSession) : Hub :=
  { h with sessions := h.sessions.remove s.id }.removeLocalUser s.callsign

/-- **A leave of an attached session.** The sign-off names the callsign, whatever other sessions it
has. -/
theorem localLeave_of_find? {s : LocalSession} (reason : Text)
    (hs : h.sessions.find? s.id = some s) :
    h.localLeave now s.id reason =
      ⟨h.dropSession s, .sendUser s.callsign h.hostName now s.channel (-1) reason ::
        (h.dropSession s).notifyChannelLeave s.channel s.callsign reason (some s.id), none⟩ := by
  simp only [localLeave, hs]
  rfl

theorem isShaped_localLeave (sessionId reason : Text) :
    h.IsShaped now (.localLeave sessionId reason) := by
  rcases hs : h.sessions.find? sessionId with _ | s
  · refine .silent now (by simp [announces, hs]) ?_
    simp only [advance, localLeave, hs]
    exact deliveries_nil
  · refine .said now [] _ (by simp [announces, hs]) (by rw [announcement, hs]; rfl)
      (by simp only [advance, localLeave, hs]; rfl) deliveries_nil
      (deliveries_notifyChannelLeave _ s.channel s.callsign reason (some sessionId)) ?_
    rw [notifyChannelLeave, List.map_eq_nil_iff]
    simp only [isLastWord, hs, Option.any_some, List.isEmpty_iff]
    rw [← sessionsOn_remove h sessionId s.channel]
    rfl

end Handlers

theorem isShaped (now : DateTimeOffset) {e : ConversEvent} (he : e.isLocal = true) :
    h.IsShaped now e := by
  cases e with
  | localJoin sessionId callsign channel => exact isShaped_localJoin now sessionId callsign channel
  | localSwitchChannel sessionId channel => exact isShaped_localSwitchChannel now sessionId channel
  | localSay sessionId text => exact isShaped_localSay now sessionId text
  | localPrivateMessage sessionId toUser text =>
    exact isShaped_localPrivateMessage now sessionId toUser text
  | localSetPersonal sessionId personal => exact isShaped_localSetPersonal now sessionId personal
  | localSetAway sessionId away => exact isShaped_localSetAway now sessionId away
  | localSetTopic sessionId topic => exact isShaped_localSetTopic now sessionId topic
  | localInvite sessionId toUser channel => exact isShaped_localInvite now sessionId toUser channel
  | localSetMode sessionId channel options =>
    exact isShaped_localSetMode now sessionId channel options
  | localSetOperator sessionId channel grant =>
    exact isShaped_localSetOperator now sessionId channel grant
  | localLeave sessionId reason => exact isShaped_localLeave now sessionId reason
  | _ => cases he

/-- **An event of a session that gets past the checks is announced once.** Everything else in the
answer is for sessions of this host. -/
theorem advance_of_announces {h : Hub} (now : DateTimeOffset) {e : ConversEvent}
    (hann : h.announces e = true) : ∃ before send after, h.announcement now e = some send ∧
      (h.advance now e).actions = before ++ send :: after ∧ Deliveries before ∧
      Deliveries after ∧ (after = [] ↔ h.isLastWord e = true) := by
  have he : e.isLocal = true := by
    cases e
    case localJoin => rfl
    all_goals first | rfl | cases hann
  exact (h.isShaped now he).1 hann

/-- **One that does not is told to sessions here only.** A refusal therefore never leaves the host.
-/
theorem advance_of_not_announces {h : Hub} (now : DateTimeOffset) {e : ConversEvent}
    (he : e.isLocal = true) (hann : h.announces e = false) :
    Deliveries (h.advance now e).actions :=
  (h.isShaped now he).2 hann

/-- **The content an event sends is its announcement.** To know what a host sends it is enough to
know what it announces. -/
theorem announcement_of_mem {h : Hub} {now : DateTimeOffset} {e : ConversEvent}
    (he : e.isLocal = true) {a : ConversAction} (ha : a ∈ (h.advance now e).actions)
    (hcontent : a.isContent = true) : h.announces e = true ∧ h.announcement now e = some a := by
  have hnot : a.isDeliver ≠ true := by simp [ConversAction.isDeliver_of_isContent hcontent]
  rcases hann : h.announces e with _ | _
  · exact absurd (advance_of_not_announces now he hann a ha) hnot
  · obtain ⟨before, send, after, hsend, hactions, hbefore, hafter, -⟩ :=
      advance_of_announces now hann
    rw [hactions, List.mem_append, List.mem_cons] at ha
    rcases ha with ha | rfl | ha
    · exact absurd (hbefore a ha) hnot
    · exact ⟨rfl, hsend⟩
    · exact absurd (hafter a ha) hnot

/-- **Only a profile that cannot be kept makes an event fail**, and it fails without a word. So the
loop that catches the exception has lost nothing but this event. -/
theorem advance_fault {h : Hub} (now : DateTimeOffset) {e : ConversEvent} {fault : Fault}
    (hfault : (h.advance now e).fault = some fault) :
    (∃ sessionId personal, e = .localSetPersonal sessionId personal) ∧
      h.announces e = false ∧ (h.advance now e).actions = [] := by
  cases e with
  | localSetPersonal sessionId personal =>
    rcases hs : h.sessions.find? sessionId with _ | s
    · simp only [advance, localSetPersonal, hs] at hfault
      cases hfault
    · obtain rfl : s.id = sessionId := Table.key_of_find? hs
      rcases hkeep : h.keepsProfile s.callsign with _ | _
      · refine ⟨⟨_, _, rfl⟩, by simp [announces, hs, hkeep], ?_⟩
        rw [advance, localSetPersonal_of_not_keepsProfile now personal hs hkeep]
      · obtain ⟨store, hstore⟩ := localSetPersonal_of_keepsProfile now personal hs hkeep
        rw [advance, hstore] at hfault
        cases hfault
  | localJoin | localSwitchChannel | localSay | localPrivateMessage | localSetAway
  | localSetTopic | localInvite | localSetMode | localSetOperator | localLeave | hostUser
  | hostChannelMessage | hostPrivateMessage | hostPersonal | hostAway | hostTopic | hostInvite
  | hostMode | hostOper | hostPing | hostPong | hostLoop | hostUnknown =>
    simp only [advance, localJoin, localSwitchChannel, localSay, localPrivateMessage,
      localSetAway, localSetTopic, localInvite, localSetMode, localSetOperator, localLeave,
      hostUser, hostChannelMessage, hostPrivateMessage, hostPersonal, hostAway, hostTopic,
      hostInvite, hostMode, hostOper, ignore, refuse] at hfault
    repeat' split at hfault
    all_goals cases hfault

/-! ### The answer to the network -/

/-- **An event of the network sends nothing but the answer to a ping.** What other hosts say is
passed on by the relay, and never by the hub. -/
theorem advance_of_not_isLocal (now : DateTimeOffset) {e : ConversEvent}
    (he : e.isLocal = false) :
    ∀ a ∈ (h.advance now e).actions, a.isDeliver = true ∨
      (e = .hostPing ∧ a = .sendPong pongSentinelNoMeasurement) ∨
      ∃ reason, a = .dropUplink reason := by
  -- but for two link events, all that a hub answers is a delivery
  have hdeliver : ∀ {actions : List ConversAction}, Deliveries actions → ∀ a ∈ actions,
      a.isDeliver = true ∨ (e = .hostPing ∧ a = .sendPong pongSentinelNoMeasurement) ∨
        ∃ reason, a = .dropUplink reason := fun hdel a ha => Or.inl (hdel a ha)
  cases e with
  | hostUser user host timestamp source target personal observer =>
    refine hdeliver ?_
    simp only [advance, hostUser]
    repeat' split
    all_goals first
      | exact deliveries_nil
      | exact deliveries_notifyChannelLeave _ _ _ _ _
      | exact (deliveries_notifyChannelLeave _ _ _ _ _).append
          (deliveries_notifyChannelJoin _ _ _ _)
      | exact deliveries_notifyChannelJoin _ _ _ _
  | hostChannelMessage user channel text =>
    refine hdeliver ?_
    simp only [advance, hostChannelMessage]
    split
    · exact deliveries_nil
    · exact deliveries_deliverToChannel _ _ _ _ _
  | hostPrivateMessage source target text =>
    refine hdeliver ?_
    simp only [advance, hostPrivateMessage]
    split
    · exact deliveries_nil
    · exact deliveries_map fun _ => rfl
  | hostPersonal user host text =>
    refine hdeliver ?_
    simp only [advance, hostPersonal]
    split <;> exact deliveries_nil
  | hostAway user host timestamp text =>
    refine hdeliver ?_
    simp only [advance, hostAway]
    split <;> exact deliveries_nil
  | hostTopic user host timestamp channel text =>
    refine hdeliver ?_
    simp only [advance, hostTopic]
    split
    · exact deliveries_nil
    · split
      · exact deliveries_nil
      · exact deliveries_notifyTopic _ _ _ _
  | hostInvite source user channel =>
    refine hdeliver ?_
    simp only [advance, hostInvite]
    split
    · exact deliveries_nil
    · exact deliveries_map fun _ => rfl
  | hostMode channel options =>
    refine hdeliver ?_
    simp only [advance, hostMode]
    split
    · exact deliveries_nil
    · split
      · exact deliveries_nil
      · exact deliveries_notifyModeChange _ _ _
  | hostOper user host channel grant =>
    refine hdeliver ?_
    simp only [advance, hostOper]
    split
    · exact deliveries_nil
    · split <;> exact deliveries_nil
  | hostPing =>
    intro a ha
    exact Or.inr (Or.inl ⟨rfl, List.mem_singleton.mp ha⟩)
  | hostLoop host =>
    intro a ha
    exact Or.inr (Or.inr ⟨_, List.mem_singleton.mp ha⟩)
  | hostPong millisecondsOrSentinel => exact hdeliver deliveries_nil
  | hostUnknown raw => exact hdeliver deliveries_nil
  | _ => cases he

end Hub

end Convers
