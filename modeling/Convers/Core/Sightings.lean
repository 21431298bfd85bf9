import Convers.Core.Roster

/-!
# Where a user is seen

What a host shows of a user is his channel and his away text
(`Convers.Hub.shows`). `Convers.ConversEvent.tells` is what an event from another host
says of it, whatever the hub that hears it: of a user of another host a hub shows what
it is told (`Convers.Hub.shows_of_remote`), and of its own users what it tells
(`Convers.Hub.LocalStep`), the operator grants and the texts of a session apart, which
store the entry of the session anew without a word.
-/

namespace Convers

/-- What an event from another host says of a user: a sign-off, a channel, which leaves the
away text, or an away text, which is for a user that is known. -/
def ConversEvent.tells (k : Text × Text) (known : Option (Int32 × Text)) :
    ConversEvent → Option (Int32 × Text)
  | .hostUser user host _ _ toChannel _ _ =>
    if k = (Callsigns.normalize user, Callsigns.normalize host) ∧ Callsigns.isValidName k.1 ∧
        Callsigns.isValidName k.2 then
      if toChannel = -1 then none
      else if ChannelNumber.isValid toChannel then
        some (toChannel, (known.map Prod.snd).getD [])
      else known
    else known
  | .hostAway user host _ text =>
    if k = (Callsigns.normalize user, Callsigns.normalize host) then
      known.map fun (channel, _) => (channel, trim text)
    else known
  | _ => known

/-- The events from the hosts that can change the entry of a user. -/
def ConversEvent.isOfUser : ConversEvent → Bool
  | .hostUser .. | .hostAway .. | .hostPersonal .. | .hostOper .. => true
  | _ => false

/-- What an action says of a user, to the hosts it is sent to. -/
def ConversAction.tells (k : Text × Text) (known : Option (Int32 × Text)) :
    ConversAction → Option (Int32 × Text)
  | .sendUser user host timestamp fromChannel toChannel personal =>
    (ConversEvent.hostUser user host timestamp fromChannel toChannel personal false).tells k known
  | .sendAway user host timestamp text =>
    (ConversEvent.hostAway user host timestamp text).tells k known
  | _ => known

/-- An entry the hub can hold: a canonical, valid name at a canonical, valid host, on a
channel. -/
structure NetworkUser.Sound (u : NetworkUser) : Prop where
  name : Callsigns.normalize u.name = u.name ∧ Callsigns.isValidName u.name = true
  host : Callsigns.normalize u.host = u.host ∧ Callsigns.isValidName u.host = true
  channel : ChannelNumber.isValid u.channel = true

namespace Hub

variable {h : Hub}

/-- What a hub shows of a user: his channel and his away text. -/
def shows (h : Hub) (k : Text × Text) : Option (Int32 × Text) :=
  (h.users.find? k).map fun u => (u.channel, u.away)

theorem shows_of_users {h' : Hub} (husers : h'.users = h.users) (k : Text × Text) :
    h'.shows k = h.shows k := by
  rw [shows, shows, husers]

theorem shows_put (h : Hub) (u : NetworkUser) (k : Text × Text) :
    { h with users := h.users.put u }.shows k =
      if k = u.key then some (u.channel, u.away) else h.shows k := by
  rw [shows, shows, Table.find?_put]
  split
  · rfl
  · rfl

theorem shows_remove (h : Hub) (k k' : Text × Text) :
    { h with users := h.users.remove k }.shows k' = if k' = k then none else h.shows k' := by
  rw [shows, shows, Table.find?_remove]
  split
  · rfl
  · rfl

theorem shows_storeSession (h : Hub) (s : LocalSession) (k : Text × Text) :
    (h.storeSession s).shows k =
      if k = (s.callsign, h.hostName) then some (s.channel, s.away) else h.shows k :=
  h.shows_put (h.localUser s) k

theorem shows_dropSession (h : Hub) (s : LocalSession) (k : Text × Text) :
    (h.dropSession s).shows k = if k = (s.callsign, h.hostName) then none else h.shows k :=
  h.shows_remove _ k

/-! ### What a grant shows -/

/-- A grant changes no entry of another host. -/
theorem find?_users_grantOperator_of_remote {k : Text × Text} (hk : h.Remote k) (call : Text)
    (channel : Int32) (grant : Bool) :
    (h.grantOperator call channel grant).users.find? k = h.users.find? k := by
  rw [grantOperator, find?_users_refresh, users_applyOperator,
    List.find?_eq_none.mpr fun u hu => ?_]
  · rfl
  · obtain ⟨s, -, rfl⟩ := List.mem_map.mp (List.mem_reverse.mp hu)
    rw [decide_eq_true_eq]
    rintro rfl
    exact hk (hostName_applyOperator h call channel grant)

/-- **What a grant shows**: the entry of the callsign is that of the session refreshed last, if
there is one. What is shown of anybody else stays. -/
theorem shows_grantOperator (hcanon : h.Canonical) {call : Text}
    (hcall : Callsigns.normalize call = call) (channel : Int32) (grant : Bool) (k : Text × Text) :
    (h.grantOperator call channel grant).shows k =
      if k = (call, h.hostName) then
        ((h.flagged call channel grant).getLast?.map fun s => (s.channel, s.away)).or (h.shows k)
      else h.shows k := by
  obtain ⟨name, host⟩ := k
  by_cases hhost : host = h.hostName
  · subst hhost
    have hentry := congrArg (Option.map fun u : NetworkUser => (u.channel, u.away))
      (find?_users_grant hcanon hcall channel grant name)
    have hunflag : ((fun u : NetworkUser => (u.channel, u.away)) ∘ unflagged) =
        fun u => (u.channel, u.away) := rfl
    rw [Option.map_map, hunflag] at hentry
    refine hentry.trans ?_
    by_cases hname : name = call
    · rw [if_pos hname, if_pos (by rw [hname]), Option.map_or, Option.map_map, Option.map_map]
      rfl
    · rw [if_neg hname, if_neg (by simpa using hname), Option.map_map]
      rfl
  · rw [if_neg fun heq => hhost (congrArg Prod.snd heq), shows,
      find?_users_grantOperator_of_remote (k := (name, host)) hhost]
    rfl

/-- The flag of an entry is not shown. -/
theorem shows_put_flag {k : Text × Text} {u : NetworkUser} (hu : h.users.find? k = some u)
    (isOp : Bool) (k' : Text × Text) :
    { h with users := h.users.put { u with isOperator := isOp } }.shows k' = h.shows k' := by
  rw [shows_put]
  split
  · rename_i hk'
    have hkey : u.key = k := Table.key_of_find? hu
    have hk : k' = k := hk'.trans hkey
    rw [hk, shows, hu]
    rfl
  · rfl

/-! ### What an event from another host shows -/

/-- **The presence of another host's user** is what it is said to be. The guard of the handler is
for our own users only. -/
theorem shows_hostUser_of_remote (hhost : Callsigns.normalize h.hostName = h.hostName)
    {k : Text × Text} (hk : h.Remote k) (user host : Text) (timestamp : DateTimeOffset)
    (fromChannel toChannel : Int32) (personal : Text) (observer : Bool) :
    (h.hostUser user host timestamp fromChannel toChannel personal observer).hub.shows k =
      (ConversEvent.hostUser user host timestamp fromChannel toChannel personal observer).tells k
        (h.shows k) := by
  have hother : ∀ known, ¬(k = (Callsigns.normalize user, Callsigns.normalize host) ∧
      Callsigns.isValidName k.1 ∧ Callsigns.isValidName k.2) →
        (ConversEvent.hostUser user host timestamp fromChannel toChannel personal observer).tells k
          known = known := fun known hnot => if_neg hnot
  simp only [hostUser]
  split
  · rename_i hinvalid
    rw [hother]
    · rfl
    · rintro ⟨rfl, hname, hhost⟩
      simp [hname, hhost] at hinvalid
  rename_i hvalid
  simp only [Bool.or_eq_true, Bool.not_eq_true', not_or, Bool.not_eq_false] at hvalid
  split
  · -- the guard: we are the authority for our own users
    rename_i hown
    rw [Callsigns.equal, decide_eq_true_eq, Callsigns.normalize_normalize, hhost] at hown
    rw [hother]
    · rfl
    · rintro ⟨rfl, -⟩
      exact hk hown
  by_cases hkey : k = (Callsigns.normalize user, Callsigns.normalize host)
  · subst hkey
    have htold : ∀ known, (ConversEvent.hostUser user host timestamp fromChannel toChannel personal
        observer).tells (Callsigns.normalize user, Callsigns.normalize host) known =
          if toChannel = -1 then none
          else if ChannelNumber.isValid toChannel then
            some (toChannel, (known.map Prod.snd).getD [])
          else known := fun known => if_pos ⟨rfl, hvalid⟩
    rw [htold]
    by_cases hto : toChannel = -1
    · rw [if_pos hto, if_pos hto]
      split
      · rename_i hnone
        rw [ignore, shows, hnone]
        rfl
      · exact (h.shows_remove _ _).trans (if_pos rfl)
    · rw [if_neg hto, if_neg hto]
      by_cases hchannel : ChannelNumber.isValid toChannel = true
      · rw [if_neg (by simp [hchannel]), if_pos hchannel]
        refine (h.shows_put _ _).trans ((if_pos rfl).trans ?_)
        rw [shows, Option.map_map]
        rfl
      · rw [if_pos (by simpa using hchannel), if_neg hchannel]
        rfl
  · rw [hother _ fun hbad => hkey hbad.1]
    split
    · split
      · rfl
      · exact (h.shows_remove _ _).trans (if_neg hkey)
    · split
      · rfl
      · exact (h.shows_put _ _).trans (if_neg hkey)

/-- An away text is for the user it names, whoever's he is. -/
theorem shows_hostAway (user host : Text) (timestamp : DateTimeOffset) (text : Text)
    (k : Text × Text) :
    (h.hostAway user host text).hub.shows k =
      (ConversEvent.hostAway user host timestamp text).tells k (h.shows k) := by
  simp only [hostAway, ConversEvent.tells]
  by_cases hkey : k = (Callsigns.normalize user, Callsigns.normalize host)
  · subst hkey
    rw [if_pos rfl]
    split
    · rename_i hnone
      rw [ignore, shows, hnone]
      rfl
    · rename_i u hu
      have hu' : u.key = _ := Table.key_of_find? hu
      refine (h.shows_put _ _).trans ((if_pos hu'.symm).trans ?_)
      rw [shows, hu]
      rfl
  · rw [if_neg hkey]
    split
    · rfl
    · rename_i u hu
      have hu' : u.key = _ := Table.key_of_find? hu
      exact (h.shows_put _ _).trans (if_neg fun heq => hkey (heq.trans hu'))

/-- A personal text is not shown here. -/
theorem shows_hostPersonal (user host text : Text) (k : Text × Text) :
    (h.hostPersonal user host text).hub.shows k = h.shows k := by
  simp only [hostPersonal]
  split
  · rfl
  · rename_i u hu
    have hu' : u.key = _ := Table.key_of_find? hu
    refine (h.shows_put _ _).trans ?_
    split
    · rename_i hk
      rw [hk, shows,
        show ({ u with personal := resolvePersonal text } : NetworkUser).key = _ from hu', hu]
      rfl
    · rfl

/-- **What an operator grant of another host shows** is what the grant shows. It is how another host
can change what our table shows of our own users. -/
theorem shows_hostOper (user host : Text) (channel : Int32) (grant : Bool) (k : Text × Text) :
    (h.hostOper user host channel grant).hub.shows k =
      if Callsigns.isValidName (Callsigns.normalize user) then
        (h.grantOperator (Callsigns.normalize user) channel grant).shows k
      else h.shows k := by
  simp only [hostOper]
  by_cases hvalid : Callsigns.isValidName (Callsigns.normalize user) = true
  · rw [if_neg (by simp [hvalid]), if_pos hvalid]
    split
    · rfl
    · rename_i u hu
      exact shows_put_flag hu _ k
  · rw [if_pos (by simpa using hvalid), if_neg hvalid]
    rfl

/-- No other event from a host changes the users. -/
theorem users_step (h : Hub) (now : DateTimeOffset) {e : ConversEvent} (he : e.isLocal = false)
    (hnot : e.isOfUser = false) : (step h (now, e)).users = h.users := by
  cases e with
  | hostInvite source user channel =>
    simp only [step, advance, hostInvite]
    split
    · rfl
    · exact users_recordInvite h _ _
  | hostTopic | hostMode | hostChannelMessage | hostPrivateMessage | hostPing | hostPong | hostLoop
  | hostUnknown =>
    simp only [step, advance, hostTopic, hostMode, hostChannelMessage, hostPrivateMessage]
    repeat' split
    all_goals rfl
  | _ => first | cases he; done | cases hnot

/-! ### What a local event shows, and what is said of it -/

/-- What an event of a session says to the other hosts. -/
def said (now : DateTimeOffset) (h : Hub) (e : ConversEvent) : Option ConversAction :=
  if h.announces e then h.announcement now e else none

/-- The sessions whose entry an event stores anew without a word of its channel: a text of a
session does, and so does a grant, for every session whose flag it changes. The last of them
in the enumeration leaves its mark on the table, and any of them may be that one. -/
def restores (h : Hub) : ConversEvent → List LocalSession
  | .localSetPersonal sessionId _ | .localSetAway sessionId _ =>
    (h.sessions.find? sessionId).toList
  | .localSetOperator sessionId channel grant =>
    (h.sessions.find? sessionId).toList.flatMap fun s => h.flagged s.callsign channel grant
  | .hostOper user _ channel grant =>
    if Callsigns.isValidName (Callsigns.normalize user) then
      h.flagged (Callsigns.normalize user) channel grant
    else []
  | _ => []

theorem mem_restores_localSetPersonal {s : LocalSession} (hs : h.Attached s) (personal : Text) :
    s ∈ h.restores (.localSetPersonal s.id personal) := by
  rw [restores, hs]
  exact List.mem_singleton_self s

theorem mem_restores_localSetAway {s : LocalSession} (hs : h.Attached s) (away : Text) :
    s ∈ h.restores (.localSetAway s.id away) := by
  rw [restores, hs]
  exact List.mem_singleton_self s

theorem restores_localSetOperator {s : LocalSession} (hs : h.Attached s) (channel : Int32)
    (grant : Bool) :
    h.restores (.localSetOperator s.id channel grant) = h.flagged s.callsign channel grant := by
  rw [restores, hs, Option.toList_some, List.flatMap_singleton]

theorem attached_of_mem_flagged {call : Text} {channel : Int32} {grant : Bool} {s : LocalSession}
    (hs : s ∈ h.flagged call channel grant) : h.Attached s :=
  Table.mem_records.mp (List.mem_of_mem_filter hs)

/-- What is stored anew is the entry of a session. -/
theorem attached_of_mem_restores {e : ConversEvent} {s : LocalSession} (hs : s ∈ h.restores e) :
    h.Attached s := by
  cases e with
  | localSetPersonal | localSetAway => exact attached_of_find? (Option.mem_toList.mp hs)
  | localSetOperator sessionId channel grant =>
    obtain ⟨t, -, ht⟩ := List.mem_flatMap.mp hs
    exact attached_of_mem_flagged ht
  | hostOper user host channel grant =>
    rw [restores] at hs
    split at hs
    · exact attached_of_mem_flagged hs
    · cases hs
  | _ => cases hs

/-- What is shown of one of our users is another thing, and of everybody else the same. -/
def Shows (h h' : Hub) (call : Text) (seen : Option (Int32 × Text)) : Prop :=
  ∀ k, h'.shows k = if k = (call, h.hostName) then seen else h.shows k

/-- **What a local event shows and says.** -/
inductive LocalStep (now : DateTimeOffset) (h h' : Hub) :
    ConversEvent → Option ConversAction → Prop
  /-- Nothing new is shown, and nothing is said of a user. -/
  | kept {e : ConversEvent} {said : Option ConversAction} (hshows : ∀ k, h'.shows k = h.shows k)
      (hsaid : ∀ a ∈ said, ∀ k known, a.tells k known = known) : LocalStep now h h' e said
  /-- A session joins. -/
  | joined {sessionId callsign : Text} {channel : Int32} {personal : Text}
      (hchannel : ChannelNumber.isValid channel = true)
      (hadm : h.admits channel (Callsigns.normalize callsign) = true)
      (hshows : h.Shows h' (Callsigns.normalize callsign) (some (channel, []))) :
      LocalStep now h h' (.localJoin sessionId callsign channel)
        (some (.sendUser (Callsigns.normalize callsign) h.hostName now (-1) channel personal))
  /-- A session switches its channel. -/
  | switched {s : LocalSession} {channel : Int32} (hs : h.Attached s)
      (hchannel : ChannelNumber.isValid channel = true)
      (hall : h.allows channel s = true)
      (hshows : h.Shows h' s.callsign (some (channel, s.away))) :
      LocalStep now h h' (.localSwitchChannel s.id channel)
        (some (.sendUser s.callsign h.hostName now s.channel channel s.personal))
  /-- The entry of a session is stored anew without a word. -/
  | restored {e : ConversEvent} {said : Option ConversAction} {s : LocalSession}
      (hs : h.Attached s) (hrestores : s ∈ h.restores e)
      (hshows : h.Shows h' s.callsign (some (s.channel, s.away)))
      (hsaid : ∀ a ∈ said, ∀ k known, a.tells k known = known) : LocalStep now h h' e said
  /-- A session sets its away text. -/
  | marked {s : LocalSession} {away : Text} (hs : h.Attached s)
      (hshows : h.Shows h' s.callsign (some (s.channel, trim away))) :
      LocalStep now h h' (.localSetAway s.id away)
        (some (.sendAway s.callsign h.hostName now (trim away)))
  /-- A session leaves. -/
  | left {s : LocalSession} {reason : Text} (hs : h.Attached s)
      (hshows : h.Shows h' s.callsign none) :
      LocalStep now h h' (.localLeave s.id reason)
        (some (.sendUser s.callsign h.hostName now s.channel (-1) reason))

/-- The session a grant refreshes last is attached, under the callsign. -/
theorem attached_of_flagged (hcanon : h.Canonical) {call : Text}
    (hcall : Callsigns.normalize call = call) {channel : Int32} {grant : Bool} {s : LocalSession}
    (hs : (h.flagged call channel grant).getLast? = some s) : h.Attached s ∧ s.callsign = call := by
  have hmem := List.mem_of_mem_getLast? hs
  have hattached := attached_of_mem_flagged hmem
  obtain ⟨-, hsel⟩ := List.mem_filter.mp hmem
  refine ⟨hattached, ?_⟩
  rw [Bool.and_eq_true] at hsel
  rw [← hcanon s hattached, ← hcall]
  exact of_decide_eq_true hsel.1

/-- What is said of no user's presence tells nothing. -/
theorem tells_said {now : DateTimeOffset} {e : ConversEvent}
    (hann : ∀ a ∈ h.announcement now e, ∀ k known, a.tells k known = known) :
    ∀ a ∈ said now h e, ∀ k known, a.tells k known = known := by
  intro a ha
  rw [said] at ha
  split at ha
  · exact hann a ha
  · cases ha

/-- An event of a session that is not attached shows nothing and says nothing. -/
theorem localStep_of_find?_eq_none {now : DateTimeOffset} {e : ConversEvent} {sessionId : Text}
    (he : e.sessionId? = some sessionId)
    (hjoin : ∀ callsign channel, e ≠ .localJoin sessionId callsign channel)
    (hs : h.sessions.find? sessionId = none) :
    LocalStep now h (step h (now, e)) e (said now h e) := by
  have hsilent : said now h e = none := by
    refine if_neg ?_
    cases e with
    | localJoin id callsign channel =>
      cases he
      exact absurd rfl (hjoin callsign channel)
    | _ =>
      first
        | cases he; done
        | cases he
          simp [announces, hs]
  rw [hsilent]
  refine .kept (fun k => shows_of_users ?_ k) (by rintro _ ⟨⟩)
  cases e with
  | localJoin id callsign channel =>
    cases he
    exact absurd rfl (hjoin callsign channel)
  | _ =>
    first
      | cases he; done
      | cases he
        simp only [step, advance, localSwitchChannel, localSay, localPrivateMessage,
          localSetPersonal, localSetAway, localSetTopic, localInvite, localSetMode,
          localSetOperator, localLeave, hs, ignore]

/-- **The inversion of a local step**, for what is shown and said of the users. What another host
can know of our users is what is said there, so the two are described together. -/
theorem localStep (hcanon : h.Canonical) (now : DateTimeOffset) {e : ConversEvent}
    (he : e.isLocal = true) : LocalStep now h (step h (now, e)) e (said now h e) := by
  -- an announcement of a session that is not one of its presence
  have hquiet : ∀ {sessionId : Text} {f : LocalSession → ConversAction},
      (∀ s k known, (f s).tells k known = known) →
        h.announcement now e = (h.sessions.find? sessionId).map f →
          ∀ a ∈ said now h e, ∀ k known, a.tells k known = known := by
    intro sessionId f hf hann
    refine tells_said fun a ha => ?_
    obtain ⟨s, -, rfl⟩ := Option.map_eq_some_iff.mp (hann.symm.trans ha)
    exact hf s
  cases e with
  | localJoin sessionId callsign channel =>
    rcases hadm : h.admits channel (Callsigns.normalize callsign) with _ | _
    · rw [said, announces, hadm, if_neg Bool.false_ne_true]
      refine .kept (fun k => ?_) (by rintro _ ⟨⟩)
      rw [step, advance, (localJoin_of_not_admits now sessionId hadm).1]
    · rw [said, announces, hadm, if_pos rfl, announcement]
      refine .joined ?_ hadm fun k => ?_
      · rw [admits, Bool.and_eq_true] at hadm
        exact hadm.1
      · rw [step, advance, localJoin_of_admits now sessionId hadm]
        exact h.shows_storeSession _ k
  | localSwitchChannel sessionId channel =>
    rcases hs : h.sessions.find? sessionId with _ | s
    · exact localStep_of_find?_eq_none rfl (by rintro _ _ ⟨⟩) hs
    · obtain rfl : s.id = sessionId := Table.key_of_find? hs
      rcases hall : h.allows channel s with _ | _
      · rw [said, announces, hs, Option.any_some, hall, if_neg Bool.false_ne_true]
        refine .kept (fun k => ?_) (by rintro _ ⟨⟩)
        rw [step, advance, (localSwitchChannel_of_not_allows now hs hall).1]
      · rw [said, announces, hs, Option.any_some, hall, if_pos rfl, announcement, hs]
        refine .switched hs ?_ hall fun k => ?_
        · rw [allows, Bool.and_eq_true, Bool.and_eq_true] at hall
          exact hall.1.1
        · rw [step, advance, localSwitchChannel_of_allows now hs hall]
          exact h.shows_storeSession _ k
  | localSetPersonal sessionId personal =>
    rcases hs : h.sessions.find? sessionId with _ | s
    · exact localStep_of_find?_eq_none rfl (by rintro _ _ ⟨⟩) hs
    · obtain rfl : s.id = sessionId := Table.key_of_find? hs
      refine .restored hs (mem_restores_localSetPersonal hs personal) (fun k => ?_) ?_
      · rcases hkeep : h.keepsProfile s.callsign with _ | _
        · rw [step, advance, localSetPersonal_of_not_keepsProfile now personal hs hkeep]
          exact h.shows_storeSession _ k
        · obtain ⟨store, hset⟩ := localSetPersonal_of_keepsProfile now personal hs hkeep
          rw [step, advance, hset]
          exact h.shows_storeSession _ k
      · exact hquiet (fun _ _ _ => rfl) rfl
  | localSetAway sessionId away =>
    rcases hs : h.sessions.find? sessionId with _ | s
    · exact localStep_of_find?_eq_none rfl (by rintro _ _ ⟨⟩) hs
    · obtain rfl : s.id = sessionId := Table.key_of_find? hs
      rw [said, announces, hs, Option.isSome_some, if_pos rfl, announcement, hs]
      refine .marked hs fun k => ?_
      simp only [step, advance, localSetAway, hs]
      exact h.shows_storeSession { s with away := trim away } k
  | localLeave sessionId reason =>
    rcases hs : h.sessions.find? sessionId with _ | s
    · exact localStep_of_find?_eq_none rfl (by rintro _ _ ⟨⟩) hs
    · obtain rfl : s.id = sessionId := Table.key_of_find? hs
      rw [said, announces, hs, Option.isSome_some, if_pos rfl, announcement, hs]
      refine .left hs fun k => ?_
      rw [step, advance, localLeave_of_find? now reason hs]
      exact h.shows_dropSession s k
  | localSetOperator sessionId channel grant =>
    rcases hs : h.sessions.find? sessionId with _ | s
    · exact localStep_of_find?_eq_none rfl (by rintro _ _ ⟨⟩) hs
    · obtain rfl : s.id = sessionId := Table.key_of_find? hs
      have hshows : ∀ k, (step h (now, .localSetOperator s.id channel grant)).shows k =
          (h.grantOperator s.callsign channel grant).shows k := by
        intro k
        simp only [step, advance, localSetOperator, hs]
        rfl
      rcases hlast : (h.flagged s.callsign channel grant).getLast? with _ | t
      · refine .kept (fun k => ?_) (by rintro _ ⟨⟩)
        rw [hshows, shows_grantOperator hcanon (hcanon s hs), hlast]
        exact ite_self _
      · obtain ⟨ht, hcall⟩ := attached_of_flagged hcanon (hcanon s hs) hlast
        have hmem : t ∈ h.restores (.localSetOperator s.id channel grant) := by
          rw [restores_localSetOperator hs]
          exact List.mem_of_mem_getLast? hlast
        refine .restored ht hmem (fun k => ?_) (by rintro _ ⟨⟩)
        rw [hshows, shows_grantOperator hcanon (hcanon s hs), hlast, hcall]
        rfl
  | localInvite sessionId toUser channel =>
    refine .kept (fun k => shows_of_users ?_ k) (hquiet (fun _ _ _ => rfl) rfl)
    simp only [step, advance, localInvite]
    repeat' split
    all_goals first | rfl | exact users_recordInvite h _ _
  | localSay sessionId text =>
    refine .kept (fun k => shows_of_users ?_ k) (hquiet (fun _ _ _ => rfl) rfl)
    simp only [step, advance, localSay]
    repeat' split
    all_goals rfl
  | localPrivateMessage sessionId toUser text =>
    refine .kept (fun k => shows_of_users ?_ k) (hquiet (fun _ _ _ => rfl) rfl)
    simp only [step, advance, localPrivateMessage]
    repeat' split
    all_goals rfl
  | localSetTopic sessionId topic =>
    refine .kept (fun k => shows_of_users ?_ k) (hquiet (fun _ _ _ => rfl) rfl)
    simp only [step, advance, localSetTopic]
    repeat' split
    all_goals rfl
  | localSetMode sessionId channel options =>
    refine .kept (fun k => shows_of_users ?_ k) (tells_said fun a ha => ?_)
    · simp only [step, advance, localSetMode]
      repeat' split
      all_goals rfl
    · cases ha
      exact fun _ _ => rfl
  | _ => cases he

/-! ### What is shown of a user of another host -/

/-- **Of a user of another host a hub shows what it is told.** The picture a hub has of another host
is so the fold of what that host said. -/
theorem shows_of_remote (hcanon : h.Canonical)
    (hhost : Callsigns.normalize h.hostName = h.hostName) {k : Text × Text} (hk : h.Remote k)
    (now : DateTimeOffset) (e : ConversEvent) :
    (step h (now, e)).shows k = e.tells k (h.shows k) := by
  have hlocal : e.isLocal = true → (step h (now, e)).shows k = h.shows k := by
    intro he
    -- whatever is shown anew is one of our users
    have hour : ∀ {call : Text} {seen : Option (Int32 × Text)},
        h.Shows (step h (now, e)) call seen → (step h (now, e)).shows k = h.shows k :=
      fun hshows => (hshows k).trans (if_neg fun heq => hk (congrArg Prod.snd heq))
    have hstep := localStep hcanon now he
    generalize said now h e = said at hstep
    cases hstep with
    | kept hshows hsaid => exact hshows k
    | joined hchannel hadm hshows => exact hour hshows
    | switched hs hchannel hall hshows => exact hour hshows
    | restored hs hrestores hshows hsaid => exact hour hshows
    | marked hs hshows => exact hour hshows
    | left hs hshows => exact hour hshows
  cases e with
  | hostUser user host timestamp fromChannel toChannel personal observer =>
    exact shows_hostUser_of_remote hhost hk user host timestamp fromChannel toChannel personal
      observer
  | hostAway user host timestamp text => exact shows_hostAway user host timestamp text k
  | hostPersonal user host text => exact shows_hostPersonal user host text k
  | hostOper user host channel grant =>
    refine (shows_hostOper user host channel grant k).trans ?_
    rw [shows_grantOperator hcanon (Callsigns.normalize_normalize user),
      if_neg fun heq => hk (congrArg Prod.snd heq)]
    exact ite_self _
  | localJoin | localSwitchChannel | localSay | localPrivateMessage | localSetPersonal
  | localSetAway | localSetTopic | localInvite | localSetMode | localSetOperator | localLeave =>
    exact hlocal rfl
  | _ => exact shows_of_users (users_step h now rfl rfl) k

/-! ### The entries a hub holds -/

/-- An entry after a grant is that of a session refreshed, or was there before. -/
theorem entry_of_grantOperator {call : Text} {channel : Int32} {grant : Bool} {k : Text × Text}
    {u : NetworkUser} (hu : (h.grantOperator call channel grant).users.find? k = some u) :
    (∃ s, h.Attached s ∧ ∃ flag, u = { h.localUser s with isOperator := flag }) ∨
      h.users.find? k = some u := by
  rw [grantOperator, find?_users_refresh, users_applyOperator, sessions_applyOperator,
    Option.or_eq_some_iff] at hu
  rcases hu with hu | ⟨-, hu⟩
  · left
    have hmem := List.mem_of_find?_eq_some hu
    rw [refreshed, List.mem_reverse, List.mem_map] at hmem
    obtain ⟨t, ht, rfl⟩ := hmem
    obtain ⟨s, hs, rfl⟩ := List.mem_map.mp ht
    refine ⟨s, Table.mem_records.mp (List.mem_filter.mp hs).1,
      (h.applyOperator call channel grant).opOn (Callsigns.normalize call) s.channel, ?_⟩
    simp only [localUser, reflag, hostName_applyOperator]
  · exact Or.inr hu

/-- **A hub whose names are valid**: its own, those of its sessions, and those of the users
it lists. -/
structure Sound (h : Hub) : Prop where
  host : Callsigns.normalize h.hostName = h.hostName ∧ Callsigns.isValidName h.hostName = true
  sessions : ∀ s, h.Attached s → (h.localUser s).Sound
  users : ∀ k u, h.users.find? k = some u → u.Sound

theorem Sound.callsign (hsound : h.Sound) {s : LocalSession} (hs : h.Attached s) :
    Callsigns.normalize s.callsign = s.callsign ∧ Callsigns.isValidName s.callsign = true :=
  (hsound.sessions s hs).name

theorem Sound.canonical (hsound : h.Sound) : h.Canonical := fun _ hs => (hsound.callsign hs).1

/-- A hub starts without users. -/
theorem users_of_new {hostName : Text} {store : Option ConversStore}
    (hnew : new hostName store = .ok h) : h.users = Table.empty := by
  unfold new at hnew
  split at hnew
  · cases hnew
  · cases hnew
    rfl

/-- A hub starts with valid names if its own is valid. -/
theorem sound_of_new {hostName : Text} {store : Option ConversStore}
    (hnew : new hostName store = .ok h) (hvalid : Callsigns.isValidName hostName = true) :
    h.Sound := by
  refine ⟨?_, fun s hs => absurd hs (not_attached_of_new hnew s), fun k u hu => ?_⟩
  · have hname : h.hostName = Callsigns.normalize hostName := by
      unfold new at hnew
      split at hnew
      · cases hnew
      · cases hnew
        rfl
    rw [hname]
    exact ⟨Callsigns.normalize_normalize hostName, Callsigns.isValidName_normalize hvalid⟩
  · rw [users_of_new hnew] at hu
    cases hu

/-- The names are the concern of a change of the sessions and of the users only. -/
theorem Sound.congr {h' : Hub} (hsound : h.Sound) (hhost : h'.hostName = h.hostName)
    (hsessions : ∀ s, h'.Attached s → (h.localUser s).Sound)
    (husers : ∀ k u, h'.users.find? k = some u → u.Sound) : h'.Sound := by
  refine ⟨hhost ▸ hsound.host, fun s hs => ?_, husers⟩
  have hlocal : h'.localUser s = h.localUser s := by simp only [localUser, hhost]
  rw [hlocal]
  exact hsessions s hs

/-- A session with valid names is stored. -/
theorem Sound.storeSession (hsound : h.Sound) {s : LocalSession} (hs : (h.localUser s).Sound) :
    (h.storeSession s).Sound := by
  refine hsound.congr rfl (fun t ht => ?_) fun k u hu => ?_
  · rw [Attached, find?_sessions_storeSession] at ht
    split at ht
    · cases ht
      exact hs
    · exact hsound.sessions t ht
  · rw [find?_users_storeSession] at hu
    split at hu
    · cases hu
      exact hs
    · exact hsound.users k u hu

/-- A grant keeps the names valid. -/
theorem Sound.grantOperator (hsound : h.Sound) (call : Text) (channel : Int32) (grant : Bool) :
    (h.grantOperator call channel grant).Sound := by
  refine hsound.congr (hostName_grantOperator h call channel grant) (fun s hs => ?_)
    fun k u hu => ?_
  · obtain ⟨t, ht, rfl⟩ := hs.of_grantOperator
    obtain ⟨hname, hhost, hchannel⟩ := hsound.sessions t ht
    exact ⟨hname, hhost, hchannel⟩
  · rcases entry_of_grantOperator hu with ⟨s, hs, flag, rfl⟩ | hu
    · obtain ⟨hname, hhost, hchannel⟩ := hsound.sessions s hs
      exact ⟨hname, hhost, hchannel⟩
    · exact hsound.users k u hu

/-- An invitation keeps the names valid. -/
theorem Sound.recordInvite (hsound : h.Sound) (call : Text) (channel : Int32) :
    (h.recordInvite call channel).Sound := by
  refine hsound.congr (hostName_recordInvite h call channel) (fun s hs => ?_) fun k u hu => ?_
  · rw [Attached, find?_sessions_recordInvite] at hs
    obtain ⟨t, ht, rfl⟩ := Option.map_eq_some_iff.mp hs
    obtain ⟨hname, hhost, hchannel⟩ := hsound.sessions t (attached_of_find? ht)
    split
    · exact ⟨hname, hhost, hchannel⟩
    · exact ⟨hname, hhost, hchannel⟩
  · rw [users_recordInvite] at hu
    exact hsound.users k u hu

/-- An entry with valid names is stored. -/
theorem Sound.put (hsound : h.Sound) {u : NetworkUser} (hu : u.Sound) :
    { h with users := h.users.put u }.Sound := by
  refine hsound.congr rfl (fun s hs => hsound.sessions s hs) fun k v hv => ?_
  rw [Table.find?_put] at hv
  split at hv
  · cases hv
    exact hu
  · exact hsound.users k v hv

/-- The names are those of the roster. -/
theorem Sound.of_roster {h' : Hub} (hsound : h.Sound) (hroster : h'.roster = h.roster) :
    h'.Sound := by
  refine hsound.congr (hostName_of_roster hroster) (fun s hs => ?_) fun k u hu => ?_
  · rw [Attached, sessions_of_roster hroster] at hs
    exact hsound.sessions s hs
  · rw [users_of_roster hroster] at hu
    exact hsound.users k u hu

/-- **One step keeps the names valid**, if the callsign of a join is. With valid names the words of
a hub can be read back as they were. -/
theorem Sound.step (hsound : h.Sound) (now : DateTimeOffset) {e : ConversEvent}
    (he : ∀ sessionId callsign channel, e = .localJoin sessionId callsign channel →
      Callsigns.isValidName callsign = true) : (step h (now, e)).Sound := by
  cases rosterStep h now e with
  | quiet hroster => exact hsound.of_roster hroster
  | joined hadm hroster =>
    rename_i sessionId callsign channel
    refine (hsound.storeSession ⟨?_, hsound.host, ?_⟩).of_roster hroster
    · -- the name is checked where the session comes from, and the hub normalizes it
      exact ⟨Callsigns.normalize_normalize callsign,
        Callsigns.isValidName_normalize (he _ _ _ rfl)⟩
    · rw [admits, Bool.and_eq_true] at hadm
      exact hadm.1
  | switched hs hall hroster =>
    rename_i s channel
    refine (hsound.storeSession (s := switchedSession now h s channel)
      ⟨(hsound.sessions s hs).name, hsound.host, ?_⟩).of_roster hroster
    rw [allows, Bool.and_eq_true, Bool.and_eq_true] at hall
    exact hall.1.1
  | retold s s' hs hretold hroster =>
    obtain ⟨personal, away, rfl⟩ := hretold
    obtain ⟨hname, hhost, hchannel⟩ := hsound.sessions s hs
    exact (hsound.storeSession (s := { s with personal := personal, away := away })
      ⟨hname, hhost, hchannel⟩).of_roster hroster
  | left hs hroster =>
    refine Sound.of_roster ?_ hroster
    refine hsound.congr rfl (fun t ht => ?_) fun k u hu => ?_
    · rw [Attached, find?_sessions_dropSession] at ht
      split at ht
      · cases ht
      · exact hsound.sessions t ht
    · rw [find?_users_dropSession] at hu
      split at hu
      · cases hu
      · exact hsound.users k u hu
  | authenticated hs hroster => exact (hsound.grantOperator _ _ _).of_roster hroster
  | invited hs hroster => exact (hsound.recordInvite _ _).of_roster hroster
  | hostInvited hvalid hroster => exact (hsound.recordInvite _ _).of_roster hroster
  | appeared entry hlists hkey hremote hchannel hflag hroster =>
    rename_i user host timestamp fromChannel toChannel personal observer
    refine (hsound.put ?_).of_roster hroster
    simp only [lists, Bool.and_eq_true] at hlists
    -- the handler asks for both names before it lists the user
    obtain ⟨⟨⟨hname, hhost⟩, -⟩, hto⟩ := hlists
    have hentry : entry.name = Callsigns.normalize user ∧ entry.host = Callsigns.normalize host :=
      Prod.mk.inj hkey
    refine ⟨?_, ?_, by rwa [hchannel]⟩
    · rw [hentry.1]
      exact ⟨Callsigns.normalize_normalize user, hname⟩
    · rw [hentry.2]
      exact ⟨Callsigns.normalize_normalize host, hhost⟩
  | vanished k hremote hroster =>
    refine Sound.of_roster ?_ hroster
    refine hsound.congr rfl (fun s hs => hsound.sessions s hs) fun k' u hu => ?_
    rw [Table.find?_remove] at hu
    split at hu
    · cases hu
    · exact hsound.users k' u hu
  | described u u' hu hkey hchannel hflag hroster =>
    obtain ⟨hname, hhost, hvalid⟩ := hsound.users _ u hu
    obtain ⟨hname', hhost'⟩ := Prod.mk.inj hkey
    refine (hsound.put ⟨?_, ?_, by rwa [hchannel]⟩).of_roster hroster
    · rwa [hname']
    · rwa [hhost']
  | granted hvalid hnone hroster => exact (hsound.grantOperator _ _ _).of_roster hroster
  | flagged u hvalid hu hroster =>
    rename_i user host channel grant
    have hgrant := hsound.grantOperator (Callsigns.normalize user) channel grant
    obtain ⟨hname, hhost, hchannel⟩ := hgrant.users _ u hu
    exact (hgrant.put (u := (h.grantOperator (Callsigns.normalize user) channel grant).flagUser
      (Callsigns.normalize user) u) ⟨hname, hhost, hchannel⟩).of_roster hroster

end Hub

/-! ### What our announcements tell -/

section Announcements

variable {call host : Text}
  (hcall : Callsigns.normalize call = call ∧ Callsigns.isValidName call = true)
  (hhost : Callsigns.normalize host = host ∧ Callsigns.isValidName host = true)

include hcall hhost

/-- A join or a switch puts the user on the channel. -/
theorem ConversAction.tells_sendUser (timestamp : DateTimeOffset) (fromChannel : Int32)
    {toChannel : Int32} (hto : ChannelNumber.isValid toChannel = true) (personal : Text)
    (k : Text × Text) (known : Option (Int32 × Text)) :
    (ConversAction.sendUser call host timestamp fromChannel toChannel personal).tells k known =
      if k = (call, host) then some (toChannel, (known.map Prod.snd).getD []) else known := by
  have hne : toChannel ≠ -1 := by
    rintro rfl
    cases hto
  simp only [ConversAction.tells, ConversEvent.tells, hcall.1, hhost.1]
  by_cases hk : k = (call, host)
  · subst hk
    rw [if_pos ⟨rfl, hcall.2, hhost.2⟩, if_neg hne, if_pos hto, if_pos rfl]
  · rw [if_neg fun hbad => hk hbad.1, if_neg hk]

/-- A leave signs the user off. -/
theorem ConversAction.tells_sendUser_leave (timestamp : DateTimeOffset) (fromChannel : Int32)
    (personal : Text) (k : Text × Text) (known : Option (Int32 × Text)) :
    (ConversAction.sendUser call host timestamp fromChannel (-1) personal).tells k known =
      if k = (call, host) then none else known := by
  simp only [ConversAction.tells, ConversEvent.tells, hcall.1, hhost.1]
  by_cases hk : k = (call, host)
  · subst hk
    rw [if_pos ⟨rfl, hcall.2, hhost.2⟩, if_pos trivial, if_pos rfl]
  · rw [if_neg fun hbad => hk hbad.1, if_neg hk]

/-- An away text marks the user, if he is known. -/
theorem ConversAction.tells_sendAway (timestamp : DateTimeOffset) (text : Text) (k : Text × Text)
    (known : Option (Int32 × Text)) :
    (ConversAction.sendAway call host timestamp text).tells k known =
      if k = (call, host) then known.map fun (channel, _) => (channel, trim text) else known := by
  simp only [ConversAction.tells, ConversEvent.tells, hcall.1, hhost.1]

end Announcements

namespace Hub

variable {h : Hub}

/-- Every session whose entry an event stores anew is on the channel the table shows, if the
entry is that of a given user: in whatever order they are enumerated, the entry stays. -/
def Tracks (h : Hub) (e : ConversEvent) (k : Text × Text) : Prop :=
  ∀ s ∈ h.restores e, k = (s.callsign, h.hostName) → (h.shows k).map Prod.fst = some s.channel

instance (h : Hub) (e : ConversEvent) (k : Text × Text) : Decidable (h.Tracks e k) :=
  List.decidableBAll _ (h.restores e)

/-- **The channels of the table follow what is said**, at a local event. A host that hears all that
is said so has the channels that the table has. -/
theorem channel_step_of_isLocal (hsound : h.Sound) (now : DateTimeOffset) {e : ConversEvent}
    (he : e.isLocal = true) (hjoin : ∀ sessionId callsign channel,
      e = .localJoin sessionId callsign channel → Callsigns.isValidName callsign = true)
    {k : Text × Text} (htracks : h.Tracks e k) :
    ((step h (now, e)).shows k).map Prod.fst =
      (((said now h e).map fun a => a.tells k (h.shows k)).getD (h.shows k)).map Prod.fst := by
  have hsilent : ∀ {said : Option ConversAction},
      (∀ a ∈ said, ∀ k known, a.tells k known = known) →
        (said.map fun a => a.tells k (h.shows k)).getD (h.shows k) = h.shows k := by
    intro said hsaid
    rcases said with _ | a
    · rfl
    · exact hsaid a rfl k _
  -- the entry stored anew was on the channel already
  have hkept : ∀ {s : LocalSession} {away : Text},
      (k = (s.callsign, h.hostName) → (h.shows k).map Prod.fst = some s.channel) →
        (if k = (s.callsign, h.hostName) then some (s.channel, away) else h.shows k).map Prod.fst =
          (h.shows k).map Prod.fst := by
    intro s away hs
    split
    · rename_i hk
      rw [hs hk]
      rfl
    · rfl
  have hstep := localStep hsound.canonical now he
  generalize said now h e = said at hstep
  cases hstep with
  | kept hshows hsaid => rw [hsilent hsaid, hshows]
  | joined hchannel hadm hshows =>
    have hname := Callsigns.isValidName_normalize (hjoin _ _ _ rfl)
    rw [hshows, Option.map_some, Option.getD_some, ConversAction.tells_sendUser
      ⟨Callsigns.normalize_normalize _, hname⟩ hsound.host now _ hchannel]
    split
    · rfl
    · rfl
  | switched hs hchannel hall hshows =>
    rw [hshows, Option.map_some, Option.getD_some, ConversAction.tells_sendUser
      (hsound.callsign hs) hsound.host now _ hchannel]
    split
    · rfl
    · rfl
  | restored hs hrestores hshows hsaid =>
    rw [hsilent hsaid, hshows]
    exact hkept (htracks _ hrestores)
  | marked hs hshows =>
    rw [hshows, hkept (htracks _ (mem_restores_localSetAway hs _)), Option.map_some,
      Option.getD_some,
      ConversAction.tells_sendAway (hsound.callsign hs) hsound.host]
    split
    · rw [Option.map_map]
      rfl
    · rfl
  | left hs hshows =>
    rw [hshows, Option.map_some, Option.getD_some, ConversAction.tells_sendUser_leave
      (hsound.callsign hs) hsound.host]

/-- **The channels of our own users** are not for another host to change. Only a grant stores such
an entry from its sessions, and these are on its channel. -/
theorem channel_step_of_own (hcanon : h.Canonical) (now : DateTimeOffset) {e : ConversEvent}
    (he : e.isLocal = false) {k : Text × Text} (htracks : h.Tracks e k) (hk : k.2 = h.hostName) :
    ((step h (now, e)).shows k).map Prod.fst = (h.shows k).map Prod.fst := by
  cases e with
  | hostUser user host timestamp fromChannel toChannel personal observer =>
    have hsame := (untouched_hostUser h user host timestamp fromChannel toChannel personal observer
      (.hostUser user host timestamp fromChannel toChannel personal observer)).flags nofun k.1
    rw [← hk] at hsame
    exact congrArg (Option.map Prod.fst)
      (congrArg (Option.map fun u => (u.channel, u.away)) hsame :)
  | hostAway user host timestamp text =>
    refine (congrArg _ (shows_hostAway user host timestamp text k)).trans ?_
    rw [ConversEvent.tells]
    split
    · rw [Option.map_map]
      rfl
    · rfl
  | hostPersonal user host text => exact congrArg _ (shows_hostPersonal user host text k)
  | hostOper user host channel grant =>
    refine (congrArg _ (shows_hostOper user host channel grant k)).trans ?_
    split
    · rename_i hvalid
      have hcall := Callsigns.normalize_normalize user
      rw [shows_grantOperator hcanon hcall]
      split
      · rename_i hkey
        rcases hlast : (h.flagged (Callsigns.normalize user) channel grant).getLast? with _ | s
        · rfl
        · have hcallsign := (attached_of_flagged hcanon hcall hlast).2
          have hmem : s ∈ h.restores (.hostOper user host channel grant) := by
            rw [restores, if_pos hvalid]
            exact List.mem_of_mem_getLast? hlast
          exact (htracks s hmem (by rw [hcallsign]; exact hkey)).symm
      · rfl
    · rfl
  | _ =>
    first
      | cases he; done
      | exact congrArg _ (shows_of_users (users_step h now rfl rfl) k)

end Hub

end Convers
