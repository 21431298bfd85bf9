import Convers.Core.FanOut
import Convers.Core.Roster

/-!
# Joins and leaves that are told

The sessions of a channel are told who joins it and who leaves. `Convers.Hub.joins` and
`Convers.Hub.leaves` are what an event has them told, from the checks of its handler alone:
the channel, the user, and the session that is not told (`Convers.Hub.joins_advance`,
`Convers.Hub.leaves_advance`).

A notice should mean a change of the user table (`Convers.Hub.TellsTrue`). The handlers look
at it in one direction only: whoever is said to join is listed on the channel afterwards,
and whoever is said to leave is not. Whether it was otherwise before is left open, so a user
who is announced again is said to join again; a notice is true exactly when there is a
change to tell or nobody to tell it to (`Convers.Hub.tellsTrue_iff`).
-/

namespace Convers

namespace ConversAction

/-- A join notice. -/
def isJoinNotice : ConversAction → Bool
  | deliverJoinNotice .. => true
  | _ => false

/-- A leave notice. -/
def isLeaveNotice : ConversAction → Bool
  | deliverLeaveNotice .. => true
  | _ => false

end ConversAction

namespace Hub

variable (h : Hub)

/-- The user of a key is listed on a channel. -/
def listedOn (k : Text × Text) (channel : Int32) : Bool :=
  (h.users.find? k).any (·.channel = channel)

/-- The host of the users an event is about. -/
def hostOf : ConversEvent → Text
  | .hostUser _ host .. => Callsigns.normalize host
  | _ => h.hostName

/-- **What the notices of an answer should mean.** -/
structure TellsTrue (now : DateTimeOffset) (e : ConversEvent) : Prop where
  /-- A join brings the user onto the channel. -/
  joined : ∀ id channel user, .deliverJoinNotice id channel user ∈ (h.advance now e).actions →
    h.listedOn (user, h.hostOf e) channel = false ∧
      (h.step (now, e)).listedOn (user, h.hostOf e) channel = true
  /-- A leave takes him off it. -/
  left : ∀ id channel user reason,
    .deliverLeaveNotice id channel user reason ∈ (h.advance now e).actions →
      h.listedOn (user, h.hostOf e) channel = true ∧
        (h.step (now, e)).listedOn (user, h.hostOf e) channel = false

/-- Whether another host signs a user off. -/
def signsOff (user host : Text) (toChannel : Int32) : Bool :=
  Callsigns.isValidName (Callsigns.normalize user) &&
    Callsigns.isValidName (Callsigns.normalize host) &&
      !Callsigns.equal (Callsigns.normalize host) h.hostName && toChannel = -1

/-- The join an event has told: the channel, the user, and the session that is not told. -/
def joins : ConversEvent → Option (Int32 × Text × Option Text)
  | .localJoin sessionId callsign channel =>
    if h.admits channel (Callsigns.normalize callsign) then
      some (channel, Callsigns.normalize callsign, some sessionId)
    else none
  | .localSwitchChannel sessionId channel =>
    ((h.sessions.find? sessionId).filter (h.allows channel)).map fun s =>
      (channel, s.callsign, some sessionId)
  | .hostUser user host _ _ toChannel _ _ =>
    if h.lists user host toChannel then some (toChannel, Callsigns.normalize user, none) else none
  | _ => none

/-- The leave an event has told. -/
def leaves : ConversEvent → Option (Int32 × Text × Option Text)
  | .localSwitchChannel sessionId channel =>
    ((h.sessions.find? sessionId).filter (h.allows channel)).map fun s =>
      (s.channel, s.callsign, some sessionId)
  | .localLeave sessionId _ => (h.sessions.find? sessionId).map fun s =>
    (s.channel, s.callsign, some sessionId)
  | .hostUser user host _ _ toChannel _ _ =>
    ((h.users.find? (Callsigns.normalize user, Callsigns.normalize host)).filter fun u =>
      h.signsOff user host toChannel ||
        (h.lists user host toChannel && 0 ≤ u.channel && u.channel ≠ toChannel)).map fun u =>
      (u.channel, Callsigns.normalize user, none)
  | _ => none

/-- **The condition**: the one who is said to join is not listed on the channel yet, and the one
who is said to leave is, or else nobody is there to be told. -/
structure TellsChanges (e : ConversEvent) : Prop where
  joins : ∀ channel user exceptSession, h.joins e = some (channel, user, exceptSession) →
    h.sessionsOn channel exceptSession ≠ [] → h.listedOn (user, h.hostOf e) channel = false
  leaves : ∀ channel user exceptSession, h.leaves e = some (channel, user, exceptSession) →
    h.sessionsOn channel exceptSession ≠ [] → h.listedOn (user, h.hostOf e) channel = true

/-! ### The notices of an answer -/

/-- The notices of an answer are those of its join and its leave. -/
structure NoticesOf (now : DateTimeOffset) (e : ConversEvent) : Prop where
  joins : (h.advance now e).actions.filter ConversAction.isJoinNotice =
    match h.joins e with
    | some (channel, user, exceptSession) => h.notifyChannelJoin channel user exceptSession
    | none => []
  leaves : ∃ reason, (h.advance now e).actions.filter ConversAction.isLeaveNotice =
    match h.leaves e with
    | some (channel, user, exceptSession) =>
      h.notifyChannelLeave channel user reason exceptSession
    | none => []

section Answers

variable {h} (now : DateTimeOffset)

theorem Without.filter_eq_nil {kind : ConversAction → Bool} {actions : List ConversAction}
    (hw : Without kind actions) : actions.filter kind = [] :=
  List.filter_eq_nil_iff.mpr fun a ha => Bool.eq_false_iff.mp (hw a ha)

/-- An answer without either. -/
theorem NoticesOf.of_without {e : ConversEvent} (hjoins : h.joins e = none)
    (hleaves : h.leaves e = none)
    (hj : Without ConversAction.isJoinNotice (h.advance now e).actions)
    (hl : Without ConversAction.isLeaveNotice (h.advance now e).actions) :
    h.NoticesOf now e := by
  refine ⟨?_, [], ?_⟩
  · rw [hjoins]
    exact hj.filter_eq_nil
  · rw [hleaves]
    exact hl.filter_eq_nil

@[simp] theorem filter_notifyChannelJoin (channel : Int32) (user : Text)
    (exceptSession : Option Text) :
    (h.notifyChannelJoin channel user exceptSession).filter ConversAction.isJoinNotice =
      h.notifyChannelJoin channel user exceptSession := by
  refine List.filter_eq_self.mpr fun a ha => ?_
  obtain ⟨s, -, rfl⟩ := List.mem_map.mp ha
  rfl

@[simp] theorem filter_notifyChannelLeave (channel : Int32) (user reason : Text)
    (exceptSession : Option Text) :
    (h.notifyChannelLeave channel user reason exceptSession).filter ConversAction.isLeaveNotice =
      h.notifyChannelLeave channel user reason exceptSession := by
  refine List.filter_eq_self.mpr fun a ha => ?_
  obtain ⟨s, -, rfl⟩ := List.mem_map.mp ha
  rfl

theorem filter_join_notifyChannelLeave (channel : Int32) (user reason : Text)
    (exceptSession : Option Text) :
    (h.notifyChannelLeave channel user reason exceptSession).filter ConversAction.isJoinNotice =
      [] := by
  refine Without.filter_eq_nil (without_map fun _ => rfl)

theorem filter_leave_notifyChannelJoin (channel : Int32) (user : Text)
    (exceptSession : Option Text) :
    (h.notifyChannelJoin channel user exceptSession).filter ConversAction.isLeaveNotice = [] :=
  Without.filter_eq_nil (without_map fun _ => rfl)

/-- The notices of an arrival. -/
theorem filter_arrivalNotices (s : LocalSession) :
    ((h.storeSession s).arrivalNotices s).filter ConversAction.isJoinNotice =
        h.notifyChannelJoin s.channel s.callsign (some s.id) ∧
      ((h.storeSession s).arrivalNotices s).filter ConversAction.isLeaveNotice = [] := by
  have hheard : (h.storeSession s).notifyChannelJoin s.channel s.callsign (some s.id) =
      h.notifyChannelJoin s.channel s.callsign (some s.id) := by
    rw [notifyChannelJoin, notifyChannelJoin]
    exact congrArg _ (sessionsOn_putSession h s s.channel)
  rw [arrivalNotices, List.filter_append, List.filter_append, filter_leave_notifyChannelJoin,
    (without_topicNoticeFor _ _ _ fun _ _ => rfl).filter_eq_nil,
    (without_topicNoticeFor _ _ _ fun _ _ => rfl).filter_eq_nil, filter_notifyChannelJoin,
    List.append_nil]
  exact ⟨hheard, rfl⟩

/-- A refusal, or nothing at all, has no notice of a join or a leave. -/
theorem NoticesOf.of_refused {e : ConversEvent} (hjoins : h.joins e = none)
    (hleaves : h.leaves e = none)
    (hrefused : h.advance now e = h.ignore ∨
      ∃ id channel reason, h.advance now e = h.refuse id channel reason) : h.NoticesOf now e := by
  rcases hrefused with heq | ⟨id, channel, reason, heq⟩
  · refine .of_without now hjoins hleaves ?_ ?_
    · rw [heq]
      exact without_nil
    · rw [heq]
      exact without_nil
  · refine .of_without now hjoins hleaves ?_ ?_
    · rw [heq]
      exact .cons rfl without_nil
    · rw [heq]
      exact .cons rfl without_nil

theorem localJoin_refused (sessionId : Text) {callsign : Text} {channel : Int32}
    (hadm : h.admits channel (Callsigns.normalize callsign) = false) :
    h.localJoin now sessionId callsign channel = h.ignore ∨
      ∃ id c reason, h.localJoin now sessionId callsign channel = h.refuse id c reason := by
  rw [localJoin]
  by_cases hvalid : ChannelNumber.isValid channel
  · rw [if_neg (by simp [hvalid]), if_pos]
    · exact Or.inr ⟨_, _, _, rfl⟩
    · simp only [admits, hvalid, Bool.true_and, Bool.or_eq_false_iff, Bool.not_eq_false'] at hadm
      simp [hadm]
  · rw [if_pos (by simpa using hvalid)]
    exact Or.inl rfl

theorem localSwitchChannel_refused {s : LocalSession} {channel : Int32}
    (hs : h.sessions.find? s.id = some s) (hall : h.allows channel s = false) :
    h.localSwitchChannel now s.id channel = h.ignore ∨
      ∃ id c reason, h.localSwitchChannel now s.id channel = h.refuse id c reason := by
  simp only [localSwitchChannel, hs]
  by_cases hvalid : ChannelNumber.isValid channel
  · rw [if_neg (by simp [hvalid])]
    by_cases hsame : s.channel = channel
    · rw [if_pos hsame]
      exact Or.inl rfl
    · rw [if_neg hsame, if_pos]
      · exact Or.inr ⟨_, _, _, rfl⟩
      · simp only [allows, hvalid, Bool.true_and, hsame, Bool.or_eq_false_iff, ne_eq, decide_not,
          decide_false, Bool.not_false, Bool.not_eq_false', decide_eq_false_iff_not] at hall
        simp [hall]
  · rw [if_pos (by simpa using hvalid)]
    exact Or.inl rfl

theorem noticesOf_localJoin (sessionId callsign : Text) (channel : Int32) :
    h.NoticesOf now (.localJoin sessionId callsign channel) := by
  rcases hadm : h.admits channel (Callsigns.normalize callsign) with _ | _
  · exact .of_refused now (if_neg (by simp [hadm])) rfl (localJoin_refused now sessionId hadm)
  · obtain ⟨hjoin, hleave⟩ :=
      filter_arrivalNotices (h := h) (joinedSession now h sessionId callsign channel)
    have hjoins : h.joins (.localJoin sessionId callsign channel) =
        some (channel, Callsigns.normalize callsign, some sessionId) := if_pos hadm
    refine ⟨?_, [], ?_⟩
    · rw [hjoins, advance, localJoin_of_admits now sessionId hadm]
      exact hjoin
    · rw [advance, localJoin_of_admits now sessionId hadm]
      exact hleave

theorem noticesOf_localSwitchChannel (sessionId : Text) (channel : Int32) :
    h.NoticesOf now (.localSwitchChannel sessionId channel) := by
  rcases hs : h.sessions.find? sessionId with _ | s
  · refine .of_refused now ?_ ?_ (Or.inl ?_)
    · rw [joins, hs]
      rfl
    · rw [leaves, hs]
      rfl
    · simp only [advance, localSwitchChannel, hs]
  · obtain rfl : s.id = sessionId := Table.key_of_find? hs
    rcases hall : h.allows channel s with _ | _
    · refine .of_refused now ?_ ?_ (localSwitchChannel_refused now hs hall)
      · rw [joins, hs, Option.filter_some, if_neg (by simp [hall])]
        rfl
      · rw [leaves, hs, Option.filter_some, if_neg (by simp [hall])]
        rfl
    · obtain ⟨hjoin, hleave⟩ := filter_arrivalNotices (h := h) (switchedSession now h s channel)
      refine ⟨?_, "switched channel".toList, ?_⟩
      · rw [advance, localSwitchChannel_of_allows now hs hall, joins, hs, Option.filter_some,
          if_pos hall, List.filter_append, filter_join_notifyChannelLeave]
        exact hjoin
      · rw [advance, localSwitchChannel_of_allows now hs hall, leaves, hs, Option.filter_some,
          if_pos hall, List.filter_append, filter_notifyChannelLeave]
        exact (congrArg _ hleave).trans (List.append_nil _)

theorem noticesOf_localLeave (sessionId reason : Text) :
    h.NoticesOf now (.localLeave sessionId reason) := by
  rcases hs : h.sessions.find? sessionId with _ | s
  · refine .of_refused now rfl ?_ (Or.inl ?_)
    · rw [leaves, hs]
      rfl
    · simp only [advance, localLeave, hs]
  · obtain rfl : s.id = sessionId := Table.key_of_find? hs
    have hheard : (h.dropSession s).notifyChannelLeave s.channel s.callsign reason (some s.id) =
        h.notifyChannelLeave s.channel s.callsign reason (some s.id) :=
      congrArg _ (sessionsOn_remove h s.id s.channel)
    refine ⟨?_, reason, ?_⟩
    · rw [advance, localLeave_of_find? now reason hs]
      exact filter_join_notifyChannelLeave _ _ _ _
    · rw [advance, localLeave_of_find? now reason hs, leaves, hs]
      exact (filter_notifyChannelLeave _ _ _ _).trans hheard

section HostUser

variable {user host : Text} {toChannel : Int32} (timestamp : DateTimeOffset)
  (fromChannel : Int32) (personal : Text) (observer : Bool)

/-- The entry of a user of another host. -/
def hostEntry (h : Hub) (user host : Text) (timestamp : DateTimeOffset) (toChannel : Int32)
    (personal : Text) (observer : Bool) : NetworkUser :=
  let existing := h.users.find? (Callsigns.normalize user, Callsigns.normalize host)
  let resolved := resolvePersonal personal
  { name := Callsigns.normalize user, host := Callsigns.normalize host, channel := toChannel,
    personal :=
      if resolved.length = 0 then (existing.map NetworkUser.personal).getD [] else resolved,
    nickname := (existing.map NetworkUser.nickname).getD [],
    away := (existing.map NetworkUser.away).getD [],
    isObserver := observer, isOperator := false, joinedAt := timestamp }

theorem find?_hostEntry (user host : Text) :
    (h.users.put (h.hostEntry user host timestamp toChannel personal observer)).find?
        (Callsigns.normalize user, Callsigns.normalize host) =
      some (h.hostEntry user host timestamp toChannel personal observer) :=
  h.users.find?_put_self _

/-- **A user of another host who is given an entry.** With its counterpart for a sign-off it says
all that a presence of another host does. -/
theorem hostUser_of_lists (hlists : h.lists user host toChannel = true) :
    h.hostUser user host timestamp fromChannel toChannel personal observer =
      ⟨{ h with
          users := h.users.put (h.hostEntry user host timestamp toChannel personal observer) },
        (match h.leaves (.hostUser user host timestamp fromChannel toChannel personal observer) with
          | some (channel, user, exceptSession) =>
            h.notifyChannelLeave channel user "switched channel".toList exceptSession
          | none => []) ++ h.notifyChannelJoin toChannel (Callsigns.normalize user) none,
        none⟩ := by
  have hcond := hlists
  simp only [lists, Bool.and_eq_true, Bool.not_eq_true'] at hcond
  obtain ⟨⟨⟨hname, hhost⟩, hown⟩, hvalid⟩ := hcond
  have hto : toChannel ≠ -1 := by
    rintro rfl
    cases hvalid
  have hsigns : h.signsOff user host toChannel = false := by simp [signsOff, hto]
  have hleave : ∀ existing, h.users.find? (Callsigns.normalize user, Callsigns.normalize host) =
      existing → (if existing.isSome ∧ (existing.map NetworkUser.channel).getD fromChannel ≥ 0 ∧
          (existing.map NetworkUser.channel).getD fromChannel ≠ toChannel then
        h.notifyChannelLeave ((existing.map NetworkUser.channel).getD fromChannel)
          (Callsigns.normalize user) "switched channel".toList none
      else []) =
        match h.leaves (.hostUser user host timestamp fromChannel toChannel personal observer) with
        | some (channel, user, exceptSession) =>
          h.notifyChannelLeave channel user "switched channel".toList exceptSession
        | none => [] := by
    intro existing hexisting
    simp only [leaves, hlists, hsigns, hexisting]
    rcases existing with _ | u
    · rfl
    · rw [Option.filter_some]
      by_cases hmoves : u.channel ≥ 0 ∧ u.channel ≠ toChannel
      · rw [if_pos ⟨rfl, hmoves⟩, if_pos (by simpa using hmoves)]
        rfl
      · rw [if_neg fun hbad => hmoves hbad.2, if_neg (by simpa using hmoves)]
        rfl
  rw [← hleave _ rfl]
  simp only [hostUser]
  rw [if_neg (by simp [hname, hhost]), if_neg (by simp [hown]), if_neg hto,
    if_neg (by simp [hvalid])]
  rfl

/-- **A user of another host who is signed off.** Who leaves is told to the channel he was on, if
there is one. -/
theorem hostUser_of_signsOff (hsigns : h.signsOff user host toChannel = true) :
    h.hostUser user host timestamp fromChannel toChannel personal observer =
      match h.leaves (.hostUser user host timestamp fromChannel toChannel personal observer) with
      | some (channel, name, exceptSession) =>
        ⟨{ h with users := h.users.remove (Callsigns.normalize user, Callsigns.normalize host) },
          h.notifyChannelLeave channel name personal exceptSession, none⟩
      | none => h.ignore := by
  have hcond := hsigns
  simp only [signsOff, Bool.and_eq_true, Bool.not_eq_true', decide_eq_true_eq] at hcond
  obtain ⟨⟨⟨hname, hhost⟩, hown⟩, hto⟩ := hcond
  simp only [hostUser, leaves, hsigns]
  rw [if_neg (by simp [hname, hhost]), if_neg (by simp [hown]), if_pos hto]
  rcases hu : h.users.find? (Callsigns.normalize user, Callsigns.normalize host) with _ | u
  · rfl
  · rfl

/-- Anything else is ignored. -/
theorem hostUser_of_neither (hlists : h.lists user host toChannel = false)
    (hsigns : h.signsOff user host toChannel = false) :
    h.hostUser user host timestamp fromChannel toChannel personal observer = h.ignore := by
  simp only [hostUser]
  split
  · rfl
  · rename_i hnames
    split
    · rfl
    · rename_i hown
      simp only [Bool.or_eq_true, Bool.not_eq_true', not_or, Bool.not_eq_false] at hnames
      have hnot : toChannel ≠ -1 := by
        simpa [signsOff, hnames, hown] using hsigns
      have hvalid : ChannelNumber.isValid toChannel = false := by
        simpa [lists, hnames, hown] using hlists
      rw [if_neg hnot, if_pos (by rw [hvalid]; rfl)]

theorem noticesOf_hostUser (user host : Text) (toChannel : Int32) :
    h.NoticesOf now (.hostUser user host timestamp fromChannel toChannel personal observer) := by
  rcases hlists : h.lists user host toChannel with _ | _
  · have hjoins : h.joins (.hostUser user host timestamp fromChannel toChannel personal observer) =
        none := if_neg (by simp [hlists])
    rcases hsigns : h.signsOff user host toChannel with _ | _
    · refine .of_refused now hjoins ?_
        (Or.inl (hostUser_of_neither timestamp fromChannel personal observer hlists hsigns))
      simp [leaves, hlists, hsigns]
    · refine ⟨?_, personal, ?_⟩
      · rw [hjoins, advance, hostUser_of_signsOff timestamp fromChannel personal observer hsigns]
        split
        · exact filter_join_notifyChannelLeave _ _ _ _
        · rfl
      · rw [advance, hostUser_of_signsOff timestamp fromChannel personal observer hsigns]
        split
        · exact filter_notifyChannelLeave _ _ _ _
        · rfl
  · have hanswer := hostUser_of_lists timestamp fromChannel personal observer hlists
    have hjoins : h.joins (.hostUser user host timestamp fromChannel toChannel personal observer) =
        some (toChannel, Callsigns.normalize user, none) := if_pos hlists
    refine ⟨?_, "switched channel".toList, ?_⟩
    · rw [hjoins, advance, hanswer, List.filter_append, filter_notifyChannelJoin]
      split
      · rw [filter_join_notifyChannelLeave]
        rfl
      · rfl
    · rw [advance, hanswer, List.filter_append, filter_leave_notifyChannelJoin, List.append_nil]
      split
      · exact filter_notifyChannelLeave _ _ _ _
      · rfl

end HostUser

/-- The other events have no notice of a join or a leave in their answer. -/
theorem noticesOf_other {e : ConversEvent} (hjoins : h.joins e = none) (hleaves : h.leaves e = none)
    (hnone : Without (fun a => a.isJoinNotice || a.isLeaveNotice) (h.advance now e).actions) :
    h.NoticesOf now e :=
  .of_without now hjoins hleaves (fun a ha => (Bool.or_eq_false_iff.mp (hnone a ha)).1)
    fun a ha => (Bool.or_eq_false_iff.mp (hnone a ha)).2

/-- **The notices of every answer.** A notice is so told to everyone on the channel but the one it
is about, once. -/
theorem noticesOf (e : ConversEvent) : h.NoticesOf now e := by
  cases e with
  | localJoin sessionId callsign channel => exact noticesOf_localJoin now sessionId callsign channel
  | localSwitchChannel sessionId channel =>
    exact noticesOf_localSwitchChannel now sessionId channel
  | localLeave sessionId reason => exact noticesOf_localLeave now sessionId reason
  | hostUser user host timestamp fromChannel toChannel personal observer =>
    exact noticesOf_hostUser now timestamp fromChannel personal observer user host toChannel
  | localPrivateMessage sessionId toUser text =>
    refine noticesOf_other now rfl rfl ?_
    simp only [advance, localPrivateMessage]
    split
    · exact without_nil
    · split
      · exact without_nil
      · refine .append (.append ?_ ?_) (.cons rfl without_nil)
        · intro a ha
          obtain ⟨s, -, hs⟩ := List.mem_flatMap.mp ha
          rcases List.mem_cons.mp hs with rfl | hs
          · rfl
          · split at hs
            · rw [List.mem_singleton.mp hs]
              rfl
            · cases hs
        · repeat' split
          all_goals first
            | exact without_nil
            | exact .cons rfl without_nil
  | localSay sessionId text =>
    refine noticesOf_other now rfl rfl ?_
    simp only [advance, localSay]
    split
    · exact without_nil
    · split
      · exact without_nil
      · split
        · exact .cons rfl without_nil
        · refine .append ?_ (without_map fun _ => rfl)
          split
          · exact without_nil
          · exact .cons rfl without_nil
  | localInvite sessionId toUser channel =>
    refine noticesOf_other now rfl rfl ?_
    simp only [advance, localInvite]
    split
    · exact without_nil
    · split
      · exact without_nil
      · exact (without_map fun _ => rfl).append (.cons rfl without_nil)
  | localSetPersonal | localSetAway | localSetTopic | localSetMode | localSetOperator
  | hostChannelMessage | hostPrivateMessage | hostPersonal | hostAway | hostTopic | hostInvite
  | hostMode | hostOper =>
    -- nothing, a refusal, a send, or one fan-out, which the send may come before
    refine noticesOf_other now rfl rfl ?_
    simp only [advance, localSetPersonal, localSetAway, localSetTopic, localSetMode,
      localSetOperator, hostChannelMessage, hostPrivateMessage, hostPersonal, hostAway, hostTopic,
      hostInvite, hostMode, hostOper]
    repeat' split
    all_goals first
      | exact without_nil
      | exact without_map fun _ => rfl
      | exact .cons rfl without_nil
      | exact .cons rfl (without_map fun _ => rfl)
  | hostPing | hostLoop => exact noticesOf_other now rfl rfl (.cons rfl without_nil)
  | hostPong | hostUnknown => exact noticesOf_other now rfl rfl without_nil

/-! ### What becomes of the table -/

/-- **Whoever is said to join is listed on the channel afterwards.** The half of the truth of a
notice that needs no condition. -/
theorem listedOn_of_joins {e : ConversEvent} {channel : Int32} {user : Text}
    {exceptSession : Option Text} (hjoins : h.joins e = some (channel, user, exceptSession)) :
    (h.step (now, e)).listedOn (user, h.hostOf e) channel = true := by
  cases e with
  | localJoin sessionId callsign c =>
    rw [joins] at hjoins
    split at hjoins
    · rename_i hadm
      cases hjoins
      rw [step, advance, localJoin_of_admits now sessionId hadm, listedOn]
      dsimp only
      rw [find?_users_storeSession, if_pos (by rfl)]
      exact decide_eq_true rfl
    · cases hjoins
  | localSwitchChannel sessionId c =>
    obtain ⟨s, hfilter, hpair⟩ := Option.map_eq_some_iff.mp hjoins
    obtain ⟨hs, hall⟩ := Option.filter_eq_some_iff.mp hfilter
    cases hpair
    obtain rfl : s.id = sessionId := Table.key_of_find? hs
    rw [step, advance, localSwitchChannel_of_allows now hs hall, listedOn]
    dsimp only
    rw [find?_users_storeSession, if_pos (by rfl)]
    exact decide_eq_true rfl
  | hostUser name host timestamp fromChannel toChannel personal observer =>
    rw [joins] at hjoins
    split at hjoins
    · rename_i hlists
      cases hjoins
      rw [step, advance, hostUser_of_lists timestamp fromChannel personal observer hlists, listedOn,
        hostOf, find?_hostEntry]
      exact decide_eq_true rfl
    · cases hjoins
  | _ => cases hjoins

/-- **Whoever is said to leave is not.** So what is left to ask is whether he was there before. -/
theorem listedOn_of_leaves {e : ConversEvent} {channel : Int32} {user : Text}
    {exceptSession : Option Text} (hleaves : h.leaves e = some (channel, user, exceptSession)) :
    (h.step (now, e)).listedOn (user, h.hostOf e) channel = false := by
  cases e with
  | localSwitchChannel sessionId c =>
    obtain ⟨s, hfilter, hpair⟩ := Option.map_eq_some_iff.mp hleaves
    obtain ⟨hs, hall⟩ := Option.filter_eq_some_iff.mp hfilter
    cases hpair
    obtain rfl : s.id = sessionId := Table.key_of_find? hs
    have hmoves : s.channel ≠ c := by
      simp only [allows, Bool.and_eq_true, decide_eq_true_eq] at hall
      exact hall.1.2
    rw [step, advance, localSwitchChannel_of_allows now hs hall, listedOn]
    dsimp only
    rw [find?_users_storeSession, if_pos (by rfl)]
    exact decide_eq_false fun heq => hmoves heq.symm
  | localLeave sessionId reason =>
    obtain ⟨s, hs, hpair⟩ := Option.map_eq_some_iff.mp hleaves
    cases hpair
    obtain rfl : s.id = sessionId := Table.key_of_find? hs
    rw [step, advance, localLeave_of_find? now reason hs, listedOn]
    dsimp only
    rw [find?_users_dropSession, if_pos (by rfl)]
    rfl
  | hostUser name host timestamp fromChannel toChannel personal observer =>
    rcases hlists : h.lists name host toChannel with _ | _
    · rcases hsigns : h.signsOff name host toChannel with _ | _
      · simp [leaves, hlists, hsigns] at hleaves
      · obtain ⟨u, -, hpair⟩ := Option.map_eq_some_iff.mp hleaves
        rw [step, advance, hostUser_of_signsOff timestamp fromChannel personal observer hsigns,
          hleaves]
        cases hpair
        rw [listedOn, hostOf, Table.find?_remove, if_pos rfl]
        rfl
    · obtain ⟨u, hfilter, hpair⟩ := Option.map_eq_some_iff.mp hleaves
      obtain ⟨-, hmoves⟩ := Option.filter_eq_some_iff.mp hfilter
      cases hpair
      have hsigns : h.signsOff name host toChannel = false := by
        refine Bool.eq_false_iff.mpr fun hsigns => ?_
        simp only [signsOff, lists, Bool.and_eq_true, decide_eq_true_eq] at hsigns hlists
        rw [hsigns.2] at hlists
        cases hlists.2
      have hne : toChannel ≠ u.channel := by
        simp only [hsigns, hlists, Bool.false_or, Bool.true_and, Bool.and_eq_true,
          decide_eq_true_eq] at hmoves
        exact hmoves.2.symm
      rw [step, advance, hostUser_of_lists timestamp fromChannel personal observer hlists, listedOn,
        hostOf, find?_hostEntry]
      exact decide_eq_false hne
  | _ => cases hleaves

/-! ### When a notice is true -/

theorem mem_joinNotice_iff {e : ConversEvent} {id : Text} {channel : Int32} {user : Text} :
    .deliverJoinNotice id channel user ∈ (h.advance now e).actions ↔
      ∃ exceptSession, h.joins e = some (channel, user, exceptSession) ∧
        ∃ s ∈ h.sessionsOn channel exceptSession, s.id = id := by
  have hfilter : .deliverJoinNotice id channel user ∈ (h.advance now e).actions ↔
      .deliverJoinNotice id channel user ∈
        (h.advance now e).actions.filter ConversAction.isJoinNotice := by
    rw [List.mem_filter]
    exact (and_iff_left rfl).symm
  rw [hfilter, (noticesOf now e).joins]
  rcases h.joins e with _ | ⟨c, u, exceptSession⟩
  · exact ⟨nofun, nofun⟩
  · constructor
    · intro hmem
      obtain ⟨s, hs, heq⟩ := List.mem_map.mp hmem
      cases heq
      exact ⟨exceptSession, rfl, s, hs, rfl⟩
    · rintro ⟨_, heq, s, hs, rfl⟩
      cases heq
      exact List.mem_map.mpr ⟨s, hs, rfl⟩

theorem mem_leaveNotice_iff {e : ConversEvent} {id : Text} {channel : Int32} {user : Text} :
    (∃ reason, .deliverLeaveNotice id channel user reason ∈ (h.advance now e).actions) ↔
      ∃ exceptSession, h.leaves e = some (channel, user, exceptSession) ∧
        ∃ s ∈ h.sessionsOn channel exceptSession, s.id = id := by
  have hfilter : ∀ reason, .deliverLeaveNotice id channel user reason ∈ (h.advance now e).actions ↔
      .deliverLeaveNotice id channel user reason ∈
        (h.advance now e).actions.filter ConversAction.isLeaveNotice := by
    intro reason
    rw [List.mem_filter]
    exact (and_iff_left rfl).symm
  obtain ⟨told, hleaves⟩ := (noticesOf now e).leaves
  generalize h.leaves e = leave at hleaves ⊢
  rcases leave with _ | ⟨c, u, exceptSession⟩
  · constructor
    · rintro ⟨reason, hmem⟩
      have hnone := (hfilter reason).mp hmem
      rw [hleaves] at hnone
      cases hnone
    · exact nofun
  · constructor
    · rintro ⟨reason, hmem⟩
      have hcopy := (hfilter reason).mp hmem
      rw [hleaves] at hcopy
      obtain ⟨s, hs, heq⟩ := List.mem_map.mp hcopy
      cases heq
      exact ⟨exceptSession, rfl, s, hs, rfl⟩
    · rintro ⟨_, heq, s, hs, rfl⟩
      cases heq
      refine ⟨told, (hfilter told).mpr ?_⟩
      rw [hleaves]
      exact List.mem_map.mpr ⟨s, hs, rfl⟩

/-- **The notices of an answer are true exactly when they tell a change**: the one who joins was
not listed, the one who leaves was, or nobody is told. -/
theorem tellsTrue_iff (h : Hub) (now : DateTimeOffset) (e : ConversEvent) :
    h.TellsTrue now e ↔ h.TellsChanges e := by
  constructor
  · intro htrue
    constructor
    · intro channel user exceptSession hjoins haudience
      obtain ⟨s, hs⟩ := List.exists_mem_of_ne_nil _ haudience
      exact (htrue.joined s.id channel user
        ((mem_joinNotice_iff now).mpr ⟨exceptSession, hjoins, s, hs, rfl⟩)).1
    · intro channel user exceptSession hleaves haudience
      obtain ⟨s, hs⟩ := List.exists_mem_of_ne_nil _ haudience
      obtain ⟨reason, hmem⟩ :=
        (mem_leaveNotice_iff now).mpr ⟨exceptSession, hleaves, s, hs, rfl⟩
      exact (htrue.left s.id channel user reason hmem).1
  · intro hchanges
    constructor
    · intro id channel user hmem
      obtain ⟨exceptSession, hjoins, s, hs, -⟩ := (mem_joinNotice_iff now).mp hmem
      exact ⟨hchanges.joins channel user exceptSession hjoins (List.ne_nil_of_mem hs),
        listedOn_of_joins now hjoins⟩
    · intro id channel user reason hmem
      obtain ⟨exceptSession, hleaves, s, hs, -⟩ := (mem_leaveNotice_iff now).mp ⟨reason, hmem⟩
      exact ⟨hchanges.leaves channel user exceptSession hleaves (List.ne_nil_of_mem hs),
        listedOn_of_leaves now hleaves⟩

/-- A session on channel 7, where a user of another host is listed. -/
def exampleAudience : Hub :=
  Run.final step (fresh "NODE".toList)
    [(exampleMoment, .localJoin "rf-1".toList "m0abc".toList 7),
      (exampleMoment, .hostUser "gb7abc".toList "FAR".toList exampleMoment (-1) 7 [] false)]

/-- The user is announced again, as after a reconnect, and is said to join again. -/
theorem not_tellsTrue_reannounced :
    ¬exampleAudience.TellsTrue exampleMoment
      (.hostUser "gb7abc".toList "FAR".toList exampleMoment (-1) 7 [] false) := by
  intro htrue
  have hnotice : .deliverJoinNotice "rf-1".toList 7 "GB7ABC".toList ∈
      (exampleAudience.advance exampleMoment
        (.hostUser "gb7abc".toList "FAR".toList exampleMoment (-1) 7 [] false)).actions := by
    decide +kernel
  have hlisted : exampleAudience.listedOn ("GB7ABC".toList, "FAR".toList) 7 = true := by
    decide +kernel
  exact Bool.false_ne_true ((htrue.joined _ _ _ hnotice).1.symm.trans hlisted)

end Answers

end Hub

end Convers
