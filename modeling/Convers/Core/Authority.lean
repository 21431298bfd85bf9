import Convers.Core.Presence

/-!
# Authority over our own users

The network may say anything about a user, and the hub is the authority for those of
its own host. `Convers.Hub.Untouched` is what an event of the network should leave
alone: what a session is, and the entries under our host name, but for the operator
flag. A presence line is checked for our own host name; a personal text and an away
text are not, and an operator grant rewrites the entry from a session: from the one
enumerated last of those whose flag it changes. The sessions are the values of a
dictionary, which promises no order, so a step may find them in any
(`Convers.Hub.stepIn`), and the frame holds in all of them of exactly the events that
heed our entries (`Convers.Hub.Heeds`).

With one session for a callsign, an entry is the projection of its session
(`Convers.Hub.Projected`), and stays so along a run whose events heed it
(`Convers.Hub.untouched_iff_heeds`).
-/

namespace Convers

namespace Hub

/-! ### Grants and flags -/

/-- Whether the grants make a callsign an operator on a channel. -/
def opOn (h : Hub) (call : Text) (channel : Int32) : Bool :=
  h.isGlobalOperator call || h.isChannelOperator call channel

/-- Whether they will, once a grant or a revocation has been applied. -/
def opAfter (h : Hub) (call : Text) (channel : Int32) (grant : Bool) (on : Int32) : Bool :=
  if channel < 0 then grant || h.isChannelOperator call on
  else h.isGlobalOperator call || if on = channel then grant else h.isChannelOperator call on

theorem opOn_applyOperator (h : Hub) (call : Text) (channel : Int32) (grant : Bool) (on : Int32) :
    (h.applyOperator call channel grant).opOn call on = h.opAfter call channel grant on := by
  rw [opAfter, applyOperator]
  by_cases hall : channel < 0
  · rw [if_pos hall, if_pos hall]
    rcases grant with _ | _
    · simp [opOn, isGlobalOperator, isChannelOperator]
    · simp [opOn, isGlobalOperator, isChannelOperator]
  · rw [if_neg hall, if_neg hall]
    rcases grant with _ | _
    · rw [if_neg Bool.false_ne_true]
      rcases hops : h.channelOps.get? channel with _ | ops
      · by_cases hon : on = channel
        · simp [opOn, isChannelOperator, hon, hops]
        · simp [opOn, hon]
      · by_cases hon : on = channel
        · simp [opOn, isGlobalOperator, isChannelOperator, Table.Dict.get?_set, hon]
        · simp [opOn, isGlobalOperator, isChannelOperator, Table.Dict.get?_set, hon]
    · rw [if_pos rfl]
      by_cases hon : on = channel
      · simp [opOn, isGlobalOperator, isChannelOperator, Table.Dict.get?_set, hon]
      · simp [opOn, isGlobalOperator, isChannelOperator, Table.Dict.get?_set, hon]

/-- Whether a session of a callsign has a flag other than the grants say. -/
def isStale (h : Hub) (call : Text) (s : LocalSession) : Bool :=
  Callsigns.equal s.callsign call && h.opOn call s.channel ≠ s.isOperator

/-- A session with the flag the grants say. -/
def reflag (h : Hub) (call : Text) (s : LocalSession) : LocalSession :=
  { s with isOperator := h.opOn call s.channel }

theorem refreshSession_eq (call : Text) (h : Hub) (s : LocalSession) :
    refreshSession call h s = if h.isStale call s then h.storeSession (h.reflag call s) else h := by
  rw [refreshSession, isStale]
  by_cases heq : Callsigns.equal s.callsign call
  · rw [if_pos heq, heq, Bool.true_and]
    by_cases hflag : h.opOn call s.channel ≠ s.isOperator
    · rw [if_pos (decide_eq_true hflag)]
      exact if_pos hflag
    · have hsame : decide (h.opOn call s.channel ≠ s.isOperator) = false := by simpa using hflag
      rw [hsame, if_neg Bool.false_ne_true]
      exact if_neg hflag
  · rw [if_neg heq, if_neg (by simp [heq])]

/-- The sessions a refresh stores. -/
def refreshed (h : Hub) (call : Text) (sessions : List LocalSession) : List LocalSession :=
  (sessions.filter (h.isStale call)).map (h.reflag call)

/-- **A refresh stores what it refreshed**, and the entries with it. So the lookups after a refresh
are those after several stores. -/
theorem foldl_refreshSession (h : Hub) (call : Text) (sessions : List LocalSession) :
    sessions.foldl (refreshSession call) h =
      { h with
        sessions := (h.refreshed call sessions).foldl Table.put h.sessions
        users := ((h.refreshed call sessions).map h.localUser).foldl Table.put h.users } := by
  induction sessions generalizing h with
  | nil => rfl
  | cons s sessions ih =>
    rw [List.foldl_cons, ih, refreshSession_eq]
    by_cases hstale : h.isStale call s
    · rw [if_pos hstale, refreshed, refreshed, List.filter_cons_of_pos hstale, List.map_cons]
      rfl
    · rw [if_neg hstale, refreshed, refreshed, List.filter_cons_of_neg hstale]

/-- **The sessions after a refresh**: the stale ones have the flag they should have. A refresh
changes no other field of a session, and none of another callsign. -/
theorem find?_sessions_refresh (h : Hub) (callsign id : Text) :
    (h.refreshSessionOpFlags callsign).sessions.find? id =
      (h.sessions.find? id).map fun s =>
        if h.isStale (Callsigns.normalize callsign) s then h.reflag (Callsigns.normalize callsign) s
        else s := by
  rw [refreshSessionOpFlags, foldl_refreshSession]
  exact h.sessions.find?_foldl_put_update (h.isStale (Callsigns.normalize callsign))
    (h.reflag (Callsigns.normalize callsign)) (fun _ => rfl) id

/-- The users after a refresh: the entries of the sessions refreshed come last. -/
theorem find?_users_refresh (h : Hub) (callsign : Text) (k : Text × Text) :
    (h.refreshSessionOpFlags callsign).users.find? k =
      (((h.refreshed (Callsigns.normalize callsign) h.sessions.records).map
        h.localUser).reverse.find? (NetworkUser.key · = k)).or (h.users.find? k) := by
  rw [refreshSessionOpFlags, foldl_refreshSession]
  exact h.users.find?_foldl_put _ k

theorem hostName_refresh (h : Hub) (callsign : Text) :
    (h.refreshSessionOpFlags callsign).hostName = h.hostName := by
  rw [refreshSessionOpFlags, foldl_refreshSession]

theorem hostName_applyOperator (h : Hub) (call : Text) (channel : Int32) (grant : Bool) :
    (h.applyOperator call channel grant).hostName = h.hostName := by
  rw [applyOperator]
  split
  · rfl
  · split
    · rfl
    · split <;> rfl

theorem sessions_applyOperator (h : Hub) (call : Text) (channel : Int32) (grant : Bool) :
    (h.applyOperator call channel grant).sessions = h.sessions := by
  rw [applyOperator]
  split
  · rfl
  · split
    · rfl
    · split <;> rfl

theorem users_applyOperator (h : Hub) (call : Text) (channel : Int32) (grant : Bool) :
    (h.applyOperator call channel grant).users = h.users := by
  rw [applyOperator]
  split
  · rfl
  · split
    · rfl
    · split <;> rfl

/-- A session shown the invitations of its callsign. -/
def inviteSession (h : Hub) (call : Text) (s : LocalSession) : LocalSession :=
  { s with invitedChannels := h.invitesFor call }

theorem foldl_inviteSession (h : Hub) (call : Text) (sessions : List LocalSession) :
    sessions.foldl (fun h s => if Callsigns.equal s.callsign call then
        h.putSession (h.inviteSession call s) else h) h =
      { h with sessions := ((sessions.filter fun s => Callsigns.equal s.callsign call).map
        (h.inviteSession call)).foldl Table.put h.sessions } := by
  induction sessions generalizing h with
  | nil => rfl
  | cons s sessions ih =>
    rw [List.foldl_cons, ih]
    by_cases heq : Callsigns.equal s.callsign call
    · rw [if_pos heq, List.filter_cons_of_pos (p := fun t : LocalSession =>
          Callsigns.equal t.callsign call) heq,
        List.map_cons]
      rfl
    · rw [if_neg heq, List.filter_cons_of_neg (p := fun t : LocalSession =>
          Callsigns.equal t.callsign call) heq]

/-- A hub with one invitation more. -/
def withInvite (h : Hub) (callsign : Text) (channel : Int32) : Hub :=
  let call := Callsigns.normalize callsign
  { h with invites := h.invites.set call (insert channel ((h.invites.get? call).getD ∅)) }

/-- **A recorded invitation is shown to the sessions of the callsign**, and changes nothing else.
All that is said of invitations below is read off this form. -/
theorem recordInvite_eq (h : Hub) (callsign : Text) (channel : Int32) :
    h.recordInvite callsign channel =
      { h.withInvite callsign channel with
        sessions := ((h.sessions.records.filter fun s =>
          Callsigns.equal s.callsign (Callsigns.normalize callsign)).map
            ((h.withInvite callsign channel).inviteSession (Callsigns.normalize callsign))).foldl
              Table.put h.sessions } :=
  foldl_inviteSession (h.withInvite callsign channel) (Callsigns.normalize callsign)
    h.sessions.records

theorem find?_sessions_recordInvite (h : Hub) (callsign : Text) (channel : Int32) (id : Text) :
    (h.recordInvite callsign channel).sessions.find? id =
      (h.sessions.find? id).map fun s =>
        if Callsigns.equal s.callsign (Callsigns.normalize callsign) then
          (h.withInvite callsign channel).inviteSession (Callsigns.normalize callsign) s
        else s := by
  rw [recordInvite_eq]
  exact h.sessions.find?_foldl_put_update (fun s =>
    Callsigns.equal s.callsign (Callsigns.normalize callsign))
    ((h.withInvite callsign channel).inviteSession (Callsigns.normalize callsign))
    (fun _ => rfl) id

theorem users_recordInvite (h : Hub) (callsign : Text) (channel : Int32) :
    (h.recordInvite callsign channel).users = h.users := by
  rw [recordInvite_eq]
  rfl

theorem hostName_recordInvite (h : Hub) (callsign : Text) (channel : Int32) :
    (h.recordInvite callsign channel).hostName = h.hostName := by
  rw [recordInvite_eq]
  rfl

/-! ### The frame -/

/-- What a session is, of which the network has no say. -/
def identityOf (s : LocalSession) : Text × Int32 × Text × Text :=
  (s.callsign, s.channel, s.personal, s.away)

/-- An entry but for its operator flag. -/
def unflagged (u : NetworkUser) : NetworkUser := { u with isOperator := false }

/-- **What an event of the network should leave alone.** -/
structure Untouched (h h' : Hub) (e : ConversEvent) : Prop where
  /-- The sessions are who and where they were. -/
  sessions : ∀ id, (h'.sessions.find? id).map identityOf = (h.sessions.find? id).map identityOf
  /-- The entries under our host name are what they were, but for the flag. -/
  users : ∀ name, (h'.users.find? (name, h.hostName)).map unflagged =
    (h.users.find? (name, h.hostName)).map unflagged
  /-- The flag is for an operator grant to change. -/
  flags : (∀ user host channel grant, e ≠ .hostOper user host channel grant) →
    ∀ name, h'.users.find? (name, h.hostName) = h.users.find? (name, h.hostName)

/-- The sessions of a callsign whose flag a grant changes. -/
def flagged (h : Hub) (user : Text) (channel : Int32) (grant : Bool) : List LocalSession :=
  h.sessions.records.filter fun s => Callsigns.equal s.callsign user &&
    h.opAfter user channel grant s.channel ≠ s.isOperator

/-- **An event of the network heeds our entries**: a personal text or an away text for
one of them is the one it has, and every session whose flag an operator grant changes is
one it is the entry of, so that it does not matter which of them comes last. -/
def Heeds (h : Hub) : ConversEvent → Prop
  | .hostPersonal user host text => Callsigns.normalize host = h.hostName →
    ∀ u, h.users.find? (Callsigns.normalize user, h.hostName) = some u →
      u.personal = resolvePersonal text
  | .hostAway user host _ text => Callsigns.normalize host = h.hostName →
    ∀ u, h.users.find? (Callsigns.normalize user, h.hostName) = some u → u.away = trim text
  | .hostOper user _ channel grant => Callsigns.isValidName (Callsigns.normalize user) = true →
    ∀ s ∈ h.flagged (Callsigns.normalize user) channel grant,
      (h.users.find? (Callsigns.normalize user, h.hostName)).map unflagged =
        some (unflagged (h.localUser s))
  | _ => True

/-- An event that changes neither a session nor one of our entries. -/
theorem untouched_of_same {h h' : Hub} {e : ConversEvent} (hsessions : h'.sessions = h.sessions)
    (husers : ∀ name, h'.users.find? (name, h.hostName) = h.users.find? (name, h.hostName)) :
    Untouched h h' e :=
  ⟨fun id => by rw [hsessions], fun name => by rw [husers], fun _ => husers⟩

theorem untouched_hostUser (h : Hub) (user host : Text) (timestamp : DateTimeOffset)
    (fromChannel toChannel : Int32) (personal : Text) (observer : Bool) (e : ConversEvent) :
    Untouched h (h.hostUser user host timestamp fromChannel toChannel personal observer).hub e := by
  simp only [hostUser]
  split
  · exact untouched_of_same rfl fun _ => rfl
  · split
    · exact untouched_of_same rfl fun _ => rfl
    · -- the guard: what is written is not under our host name
      rename_i hguard
      have hne :
          ∀ name, (name, h.hostName) ≠ (Callsigns.normalize user, Callsigns.normalize host) := by
        intro name heq
        refine hguard ?_
        rw [← (Prod.mk.inj heq).2]
        exact decide_eq_true rfl
      split
      · split
        · exact untouched_of_same rfl fun _ => rfl
        · refine untouched_of_same rfl fun name => ?_
          rw [Table.find?_remove, if_neg (hne name)]
      · split
        · exact untouched_of_same rfl fun _ => rfl
        · exact untouched_of_same rfl fun name => Table.find?_put_of_ne _ (hne name)

/-- A change of an entry under a key from the wire is seen iff the key is under our host
name and the entry is another. -/
theorem untouched_put_iff {h : Hub} {k : Text × Text} {existing : NetworkUser}
    (e : ConversEvent) (entry : NetworkUser) (hfound : h.users.find? k = some existing)
    (hkey : entry.key = k)
    (hflag : entry.isOperator = existing.isOperator) :
    Untouched h { h with users := h.users.put entry } e ↔
      (k.2 = h.hostName → entry = existing) := by
  subst hkey
  constructor
  · intro huntouched hhost
    have hsame := huntouched.users entry.name
    rw [← hhost] at hsame
    change ((h.users.put entry).find? entry.key).map unflagged =
      (h.users.find? entry.key).map unflagged at hsame
    rw [Table.find?_put_self, hfound, Option.map_some, Option.map_some, Option.some_inj] at hsame
    cases entry
    cases existing
    simp_all [unflagged]
  · intro hheeds
    refine untouched_of_same rfl fun name => ?_
    by_cases hname : (name, h.hostName) = entry.key
    · rw [hname, Table.find?_put_self, hfound, hheeds (congrArg Prod.snd hname).symm]
    · exact Table.find?_put_of_ne _ hname

/-- A personal text that is set under a key is seen iff the key is ours and the text is
another. -/
theorem untouched_hostPersonal_iff (h : Hub) (user host text : Text) :
    Untouched h (h.hostPersonal user host text).hub (.hostPersonal user host text) ↔
      h.Heeds (.hostPersonal user host text) := by
  simp only [hostPersonal, Heeds]
  split
  · rename_i hnone
    refine iff_of_true (untouched_of_same rfl fun _ => rfl) fun hhost u hu => ?_
    rw [← hhost, hnone] at hu
    cases hu
  · rename_i existing hfound
    have hkey : existing.key = _ := Table.key_of_find? hfound
    refine (untouched_put_iff _ { existing with personal := resolvePersonal text } hfound hkey
      rfl).trans (forall_congr' fun hhost => ?_)
    rw [← (hhost : Callsigns.normalize host = h.hostName), hfound]
    constructor
    · rintro hsame u ⟨⟩
      exact (congrArg NetworkUser.personal hsame).symm
    · intro hsame
      rw [← hsame existing rfl]

theorem untouched_hostAway_iff (h : Hub) (user host : Text) (timestamp : DateTimeOffset)
    (text : Text) :
    Untouched h (h.hostAway user host text).hub (.hostAway user host timestamp text) ↔
      h.Heeds (.hostAway user host timestamp text) := by
  simp only [hostAway, Heeds]
  split
  · rename_i hnone
    refine iff_of_true (untouched_of_same rfl fun _ => rfl) fun hhost u hu => ?_
    rw [← hhost, hnone] at hu
    cases hu
  · rename_i existing hfound
    have hkey : existing.key = _ := Table.key_of_find? hfound
    refine (untouched_put_iff _ { existing with away := trim text } hfound hkey
      rfl).trans (forall_congr' fun hhost => ?_)
    rw [← (hhost : Callsigns.normalize host = h.hostName), hfound]
    constructor
    · rintro hsame u ⟨⟩
      exact (congrArg NetworkUser.away hsame).symm
    · intro hsame
      rw [← hsame existing rfl]

/-- The callsigns of the sessions are canonical. -/
def Canonical (h : Hub) : Prop := ∀ s, h.Attached s → Callsigns.normalize s.callsign = s.callsign

/-- The sessions a grant refreshes are those whose flag it changes. -/
theorem refreshed_applyOperator (h : Hub) (user : Text) (channel : Int32) (grant : Bool) :
    (h.applyOperator user channel grant).refreshed user h.sessions.records =
      (h.flagged user channel grant).map ((h.applyOperator user channel grant).reflag user) := by
  rw [refreshed, flagged]
  congr 1
  refine List.filter_congr fun s _ => ?_
  rw [isStale, opOn_applyOperator]

/-- A search that every element passes ends at the first. -/
theorem find?_eq_head? {α : Type*} {l : List α} {p : α → Bool} (h : ∀ a ∈ l, p a = true) :
    l.find? p = l.head? := by
  cases l with
  | nil => rfl
  | cons a l => exact List.find?_cons_of_pos (h a (by simp))

/-- **The entries of ours after an operator grant**: the entry of the callsign is that of the
session refreshed last, if any. Which one that is depends on the enumeration, so the frame is asked
of every order. -/
theorem find?_users_grant {h : Hub} (hcanon : h.Canonical) {user : Text}
    (huser : Callsigns.normalize user = user) (channel : Int32) (grant : Bool) (name : Text) :
    (((h.applyOperator user channel grant).refreshSessionOpFlags user).users.find?
        (name, h.hostName)).map unflagged =
      if name = user then
        (((h.flagged user channel grant).getLast?.map fun s => unflagged (h.localUser s)).or
          ((h.users.find? (name, h.hostName)).map unflagged))
      else (h.users.find? (name, h.hostName)).map unflagged := by
  rw [find?_users_refresh, huser, users_applyOperator, sessions_applyOperator,
    refreshed_applyOperator]
  have hcall : ∀ s ∈ h.flagged user channel grant, s.callsign = user := by
    intro s hs
    obtain ⟨hmem, hsel⟩ := List.mem_filter.mp hs
    have heq : Callsigns.equal s.callsign user = true := by
      simp only [Bool.and_eq_true] at hsel
      exact hsel.1
    rw [← hcanon s (Table.mem_records.mp hmem), ← huser]
    exact of_decide_eq_true heq
  -- so every entry stored is that of the callsign
  have hkey : ∀ u ∈ ((((h.flagged user channel grant).map
      ((h.applyOperator user channel grant).reflag user)).map
        (h.applyOperator user channel grant).localUser).reverse),
      u.key = (user, h.hostName) := by
    intro u hu
    simp only [List.mem_reverse, List.mem_map] at hu
    obtain ⟨t, ⟨s, hs, rfl⟩, rfl⟩ := hu
    exact Prod.ext (hcall s hs) (hostName_applyOperator h user channel grant)
  by_cases hname : name = user
  · subst hname
    rw [if_pos rfl, find?_eq_head? fun u hu => decide_eq_true (hkey u hu), List.head?_reverse,
      List.getLast?_map, List.getLast?_map]
    rcases hlast : (h.flagged name channel grant).getLast? with _ | s
    · rfl
    · refine congrArg some ?_
      simp only [unflagged, localUser, reflag, hostName_applyOperator]
  · rw [if_neg hname, List.find?_eq_none.mpr fun u hu => ?_]
    · rfl
    · rw [hkey u hu]
      simpa using Ne.symm hname

/-- The flag of one entry set, every entry but for its flag is what it was. -/
theorem find?_users_flag {h : Hub} {k : Text × Text} {remote : NetworkUser}
    (hfound : h.users.find? k = some remote) (isOp : Bool) (k' : Text × Text) :
    ((h.users.put { remote with isOperator := isOp }).find? k').map unflagged =
      (h.users.find? k').map unflagged := by
  have hkey : remote.key = k := Table.key_of_find? hfound
  by_cases hk : k' = k
  · rw [hk, hfound, Table.find?_put, if_pos (by rw [← hkey]; rfl)]
    rfl
  · rw [Table.find?_put, if_neg]
    intro heq
    exact hk (heq.trans hkey)

/-- An operator grant is seen, in the order the sessions are in, iff the last session whose
flag it changes is not one the entry is of. -/
theorem untouched_hostOper_iff {h : Hub} (hcanon : h.Canonical) (user host : Text)
    (channel : Int32) (grant : Bool) :
    Untouched h (h.hostOper user host channel grant).hub (.hostOper user host channel grant) ↔
      (Callsigns.isValidName (Callsigns.normalize user) = true →
        ∀ s, (h.flagged (Callsigns.normalize user) channel grant).getLast? = some s →
          (h.users.find? (Callsigns.normalize user, h.hostName)).map unflagged =
            some (unflagged (h.localUser s))) := by
  by_cases hvalid : Callsigns.isValidName (Callsigns.normalize user) = true
  swap
  · refine iff_of_true ?_ fun hval => absurd hval hvalid
    simp only [hostOper]
    rw [if_pos (by simpa using hvalid)]
    exact untouched_of_same rfl fun _ => rfl
  · have hcall := Callsigns.normalize_normalize user
    -- a grant changes the flags of the sessions, never who they are
    have hsessions : ∀ id, (((h.hostOper user host channel grant).hub.sessions.find? id).map
        identityOf) = (h.sessions.find? id).map identityOf := by
      intro id
      have hrefresh : (((h.applyOperator (Callsigns.normalize user) channel
          grant).refreshSessionOpFlags (Callsigns.normalize user)).sessions.find? id).map
            identityOf =
            (h.sessions.find? id).map identityOf := by
        rw [find?_sessions_refresh, sessions_applyOperator, Option.map_map]
        refine congrArg (Option.map · _) (funext fun s => ?_)
        simp only [Function.comp_apply]
        split <;> rfl
      simp only [hostOper]
      rw [if_neg (by simp [hvalid])]
      split
      · exact hrefresh
      · exact hrefresh
    -- the entry that is flagged last is the same entry but for its flag
    have husers : ∀ name, ((h.hostOper user host channel grant).hub.users.find?
        (name, h.hostName)).map unflagged =
          (((h.applyOperator (Callsigns.normalize user) channel grant).refreshSessionOpFlags
            (Callsigns.normalize user)).users.find? (name, h.hostName)).map unflagged := by
      intro name
      simp only [hostOper]
      rw [if_neg (by simp [hvalid])]
      split
      · rfl
      · rename_i remote hfound
        exact find?_users_flag hfound _ _
    simp only [hvalid, forall_true_left]
    constructor
    · -- an entry that is refreshed ends as the projection of its session
      intro huntouched s hlast
      have hname := huntouched.users (Callsigns.normalize user)
      rw [husers, find?_users_grant hcanon hcall, if_pos rfl, hlast] at hname
      exact hname.symm
    · intro hheeds
      refine ⟨hsessions, fun name => ?_, fun hne => absurd rfl (hne user host channel grant)⟩
      rw [husers, find?_users_grant hcanon hcall]
      split
      · rename_i hname
        rw [hname]
        rcases hlast : (h.flagged (Callsigns.normalize user) channel grant).getLast? with _ | s
        · rfl
        · exact (hheeds s hlast).symm
      · rfl

/-- An invitation is written into the sessions of the user, not into the table. -/
theorem untouched_hostInvite (h : Hub) (source user : Text) (channel : Int32) (e : ConversEvent) :
    Untouched h (h.hostInvite source user channel).hub e := by
  simp only [hostInvite]
  split
  · exact untouched_of_same rfl fun _ => rfl
  · have husers : ∀ name, (h.recordInvite (Callsigns.normalize user) channel).users.find?
        (name, h.hostName) = h.users.find? (name, h.hostName) := by
      intro name
      rw [users_recordInvite]
    refine ⟨fun id => ?_, fun name => by rw [husers], fun _ => husers⟩
    rw [find?_sessions_recordInvite, Option.map_map]
    refine congrArg (Option.map · _) (funext fun s => ?_)
    simp only [Function.comp_apply]
    split <;> rfl

/-- The frame of an event that is no operator grant: the order of the sessions is nothing
to it. -/
theorem untouched_step_iff (h : Hub) (now : DateTimeOffset) {e : ConversEvent}
    (he : e.isLocal = false)
    (hgrant : ∀ user host channel grant, e ≠ .hostOper user host channel grant) :
    Untouched h (step h (now, e)) e ↔ h.Heeds e := by
  cases e with
  | hostUser user host timestamp source target personal observer =>
    exact iff_of_true (untouched_hostUser h _ _ _ _ _ _ _ _) trivial
  | hostPersonal user host text => exact untouched_hostPersonal_iff h user host text
  | hostAway user host timestamp text => exact untouched_hostAway_iff h user host timestamp text
  | hostOper user host channel grant => exact absurd rfl (hgrant user host channel grant)
  | hostInvite source user channel =>
    exact iff_of_true (untouched_hostInvite h source user channel _) trivial
  | hostChannelMessage | hostPrivateMessage | hostTopic | hostMode =>
    refine iff_of_true ?_ trivial
    simp only [step, advance, hostChannelMessage, hostPrivateMessage, hostTopic, hostMode]
    repeat' split
    all_goals exact untouched_of_same rfl fun _ => rfl
  | hostPing | hostPong | hostLoop | hostUnknown =>
    exact iff_of_true (untouched_of_same rfl fun _ => rfl) trivial
  | _ => cases he

/-! ### Orders of enumeration -/

/-- The hub with its sessions in another order. -/
def enumerate (h : Hub) (order : List Text) : Hub :=
  { h with sessions := h.sessions.enumerate order }

/-- **A step that finds the sessions in some order.** A handler that loops over `_sessions`
takes the values of a `Dictionary`, whose order is undefined and may be another at every
step: the place of a session that left is given to the next one. -/
def stepIn (h : Hub) (input : List Text × Input) : Hub := step (h.enumerate input.1) input.2

section Enumerate

variable {h : Hub} {order : List Text}

@[simp] theorem attached_enumerate {s : LocalSession} :
    (h.enumerate order).Attached s ↔ h.Attached s := by
  rw [Attached, enumerate, Table.find?_enumerate, Attached]

theorem canonical_enumerate : (h.enumerate order).Canonical ↔ h.Canonical := by
  simp only [Canonical, attached_enumerate]

/-- What an event leaves alone does not depend on the order, -/
theorem untouched_enumerate_iff {h' : Hub} {e : ConversEvent} :
    Untouched (h.enumerate order) h' e ↔ Untouched h h' e := by
  have hfind : ∀ id, (h.enumerate order).sessions.find? id = h.sessions.find? id :=
    h.sessions.find?_enumerate order
  constructor
  · rintro ⟨hsessions, husers, hflags⟩
    exact ⟨fun id => by rw [hsessions, hfind], husers, hflags⟩
  · rintro ⟨hsessions, husers, hflags⟩
    exact ⟨fun id => by rw [hsessions, hfind], husers, hflags⟩

/-- nor do the sessions whose flag a grant changes. -/
theorem mem_flagged_enumerate {user : Text} {channel : Int32} {grant : Bool} {s : LocalSession} :
    s ∈ (h.enumerate order).flagged user channel grant ↔ s ∈ h.flagged user channel grant := by
  rw [flagged, flagged, List.mem_filter, List.mem_filter,
    show s ∈ (h.enumerate order).sessions.records ↔ s ∈ h.sessions.records from
      (h.sessions.perm_enumerate order).mem_iff]
  rfl

theorem heeds_enumerate {e : ConversEvent} : (h.enumerate order).Heeds e ↔ h.Heeds e := by
  cases e with
  | hostOper user host channel grant =>
    simp only [Heeds, mem_flagged_enumerate]
    rfl
  | _ => exact Iff.rfl

/-- **Any session whose flag a grant changes comes last in some order.** So a frame that holds in
every order has to hold for each of them. -/
theorem exists_getLast?_flagged {user : Text} {channel : Int32} {grant : Bool} {s : LocalSession}
    (hs : s ∈ h.flagged user channel grant) :
    ∃ order, ((h.enumerate order).flagged user channel grant).getLast? = some s := by
  obtain ⟨hmem, hsel⟩ := List.mem_filter.mp hs
  have hperm : (h.sessions.records.erase s ++ [s]).Perm h.sessions.records :=
    (List.perm_append_singleton s _).trans (List.perm_cons_erase hmem).symm
  refine ⟨(h.sessions.records.erase s ++ [s]).map LocalSession.id, ?_⟩
  have hrecords : (h.enumerate _).sessions.records = h.sessions.records.erase s ++ [s] :=
    h.sessions.records_enumerate hperm
  rw [flagged, hrecords, List.filter_append, List.filter_cons, if_pos (by exact hsel),
    List.filter_nil, List.getLast?_concat]

end Enumerate

/-- **The frame of an event of the network** holds in every order of the sessions iff the event
heeds our entries. Only three handlers have something to heed; the others meet the frame always. -/
theorem untouched_stepIn_iff {h : Hub} (hcanon : h.Canonical) (now : DateTimeOffset)
    {e : ConversEvent} (he : e.isLocal = false) :
    (∀ order, Untouched h (stepIn h (order, now, e)) e) ↔ h.Heeds e := by
  by_cases hgrant : ∀ user host channel grant, e ≠ .hostOper user host channel grant
  · have hone : ∀ order, Untouched h (stepIn h (order, now, e)) e ↔ h.Heeds e := fun order =>
      untouched_enumerate_iff.symm.trans
        (((h.enumerate order).untouched_step_iff now he hgrant).trans heeds_enumerate)
    exact ⟨fun huntouched => (hone []).mp (huntouched []), fun hheeds order =>
      (hone order).mpr hheeds⟩
  · push Not at hgrant
    obtain ⟨user, host, channel, grant, rfl⟩ := hgrant
    have hone : ∀ order, Untouched h (stepIn h (order, now, .hostOper user host channel grant))
        (.hostOper user host channel grant) ↔ _ := fun order =>
      untouched_enumerate_iff.symm.trans
        (untouched_hostOper_iff (canonical_enumerate.mpr hcanon) user host channel grant)
    constructor
    · -- each of the sessions comes last in one of the orders
      intro huntouched hvalid s hs
      obtain ⟨order, hlast⟩ := exists_getLast?_flagged hs
      exact (hone order).mp (huntouched order) hvalid s hlast
    · intro hheeds order
      refine (hone order).mpr fun hvalid s hlast => ?_
      exact hheeds hvalid s (mem_flagged_enumerate.mp (List.mem_of_mem_getLast? hlast))

/-! ### What a step does to the two tables -/

theorem attached_of_find? {h : Hub} {id : Text} {s : LocalSession}
    (hs : h.sessions.find? id = some s) : h.Attached s := by
  rw [Attached, (Table.key_of_find? hs : s.id = id)]
  exact hs

/-- The state after an operator grant. -/
def grantOperator (h : Hub) (call : Text) (channel : Int32) (grant : Bool) : Hub :=
  (h.applyOperator call channel grant).refreshSessionOpFlags call

/-- An entry with the flag the grants say. -/
def flagUser (h : Hub) (call : Text) (u : NetworkUser) : NetworkUser :=
  { u with isOperator := h.opOn call u.channel }

/-- **What a step can do to the sessions and to our entries.** -/
inductive TableStep (h h' : Hub) (e : ConversEvent) : Prop where
  /-- Nothing, if the event heeds our entries. -/
  | other (hsessions : h'.sessions = h.sessions)
      (husers : h.Heeds e → ∀ name, h'.users.find? (name, h.hostName) =
        h.users.find? (name, h.hostName))
  /-- A session is stored that is new, under a canonical callsign, or has its callsign. -/
  | stored (s : LocalSession) (hsessions : h'.sessions = (h.storeSession s).sessions)
      (husers : h'.users = (h.storeSession s).users)
      (hs : Callsigns.normalize s.callsign = s.callsign ∨
        ∃ t, h.Attached t ∧ t.callsign = s.callsign)
  /-- A session is dropped. -/
  | dropped (s : LocalSession) (hs : h.Attached s)
      (hsessions : h'.sessions = (h.dropSession s).sessions)
      (husers : h'.users = (h.dropSession s).users)
  /-- An operator grant refreshes sessions, and may set the flag of an entry. -/
  | granted (call : Text) (channel : Int32) (grant : Bool)
      (hsessions : h'.sessions = (h.grantOperator call channel grant).sessions)
      (husers : h'.users = (h.grantOperator call channel grant).users ∨
        ∃ host remote, Callsigns.normalize call = call ∧
          (h.grantOperator call channel grant).users.find? (call, host) = some remote ∧
          h'.users = (h.grantOperator call channel grant).users.put
            ((h.grantOperator call channel grant).flagUser call remote))
  /-- An invitation is shown to sessions. -/
  | invited (call : Text) (channel : Int32)
      (hsessions : h'.sessions = (h.recordInvite call channel).sessions)
      (husers : h'.users = h.users)

theorem TableStep.quiet {h h' : Hub} {e : ConversEvent} (hsessions : h'.sessions = h.sessions)
    (husers : h'.users = h.users) : TableStep h h' e :=
  .other hsessions fun _ name => by rw [husers]

theorem hostName_grantOperator (h : Hub) (call : Text) (channel : Int32) (grant : Bool) :
    (h.grantOperator call channel grant).hostName = h.hostName := by
  rw [grantOperator, hostName_refresh, hostName_applyOperator]

/-- The host name is for good. -/
theorem hostName_step (h : Hub) (now : DateTimeOffset) (e : ConversEvent) :
    (step h (now, e)).hostName = h.hostName := by
  cases e with
  | localSetPersonal sessionId personal =>
    rcases hs : h.sessions.find? sessionId with _ | s
    · simp only [step, advance, localSetPersonal, hs, ignore]
    · obtain rfl : s.id = sessionId := Table.key_of_find? hs
      rcases hkeep : h.keepsProfile s.callsign with _ | _
      · rw [step, advance, localSetPersonal_of_not_keepsProfile now personal hs hkeep]
        rfl
      · obtain ⟨store, hset⟩ := localSetPersonal_of_keepsProfile now personal hs hkeep
        rw [step, advance, hset]
        rfl
  | localInvite | hostInvite =>
    simp only [step, advance, localInvite, hostInvite]
    repeat' split
    all_goals first | rfl | exact hostName_recordInvite h _ _
  | localSetOperator | hostOper =>
    simp only [step, advance, localSetOperator, hostOper]
    repeat' split
    all_goals first | rfl | exact hostName_grantOperator h _ _ _
  | _ =>
    simp only [step, advance, localJoin, localSwitchChannel, localSay, localPrivateMessage,
      localSetAway, localSetTopic, localSetMode, localLeave, hostUser, hostChannelMessage,
      hostPrivateMessage, hostPersonal, hostAway, hostTopic, hostMode]
    repeat' split
    all_goals rfl

/-! ### One lemma for each handler that changes them -/

section Handlers

variable {h : Hub} {now : DateTimeOffset} {e : ConversEvent} {sessionId : Text}

theorem tableStep_localJoin (callsign : Text) (channel : Int32) :
    TableStep h (h.localJoin now sessionId callsign channel).hub e := by
  rcases hadm : h.admits channel (Callsigns.normalize callsign) with _ | _
  · have hsame := (localJoin_of_not_admits now sessionId hadm).1
    exact .quiet (by rw [hsame]) (by rw [hsame])
  · have hjoin := localJoin_of_admits now sessionId hadm
    exact .stored (joinedSession now h sessionId callsign channel) (by rw [hjoin]) (by rw [hjoin])
      (Or.inl (Callsigns.normalize_normalize callsign))

theorem tableStep_localSwitchChannel (channel : Int32) :
    TableStep h (h.localSwitchChannel now sessionId channel).hub e := by
  rcases hs : h.sessions.find? sessionId with _ | s
  · refine .quiet ?_ ?_ <;> simp only [localSwitchChannel, hs, ignore]
  · obtain rfl : s.id = sessionId := Table.key_of_find? hs
    rcases hall : h.allows channel s with _ | _
    · have hsame := (localSwitchChannel_of_not_allows now hs hall).1
      exact .quiet (by rw [hsame]) (by rw [hsame])
    · have hswitch := localSwitchChannel_of_allows now hs hall
      exact .stored (switchedSession now h s channel) (by rw [hswitch]) (by rw [hswitch])
        (Or.inr ⟨s, hs, rfl⟩)

theorem tableStep_localSetPersonal (personal : Text) :
    TableStep h (h.localSetPersonal now sessionId personal).hub e := by
  rcases hs : h.sessions.find? sessionId with _ | s
  · refine .quiet ?_ ?_ <;> simp only [localSetPersonal, hs, ignore]
  · obtain rfl : s.id = sessionId := Table.key_of_find? hs
    rcases hkeep : h.keepsProfile s.callsign with _ | _
    · have hset := localSetPersonal_of_not_keepsProfile now personal hs hkeep
      exact .stored (personalSession s personal) (by rw [hset]) (by rw [hset])
        (Or.inr ⟨s, hs, rfl⟩)
    · -- the store comes after the two tables, and a fault of it leaves them changed
      obtain ⟨store, hset⟩ := localSetPersonal_of_keepsProfile now personal hs hkeep
      exact .stored (personalSession s personal) (by rw [hset]) (by rw [hset])
        (Or.inr ⟨s, hs, rfl⟩)

theorem tableStep_localSetAway (away : Text) :
    TableStep h (h.localSetAway now sessionId away).hub e := by
  rcases hs : h.sessions.find? sessionId with _ | s
  · refine .quiet ?_ ?_ <;> simp only [localSetAway, hs, ignore]
  · refine .stored { s with away := trim away } ?_ ?_ (Or.inr ⟨s, attached_of_find? hs, rfl⟩)
    · simp only [localSetAway, hs]
      rfl
    · simp only [localSetAway, hs]
      rfl

theorem tableStep_localLeave (reason : Text) :
    TableStep h (h.localLeave now sessionId reason).hub e := by
  rcases hs : h.sessions.find? sessionId with _ | s
  · refine .quiet ?_ ?_ <;> simp only [localLeave, hs, ignore]
  · obtain rfl : s.id = sessionId := Table.key_of_find? hs
    have hleave := localLeave_of_find? now reason hs
    exact .dropped s hs (by rw [hleave]) (by rw [hleave])

theorem tableStep_localSetOperator (channel : Int32) (grant : Bool) :
    TableStep h (h.localSetOperator sessionId channel grant).hub e := by
  rcases hs : h.sessions.find? sessionId with _ | s
  · refine .quiet ?_ ?_ <;> simp only [localSetOperator, hs, ignore]
  · refine .granted s.callsign channel grant ?_ (Or.inl ?_)
    · simp only [localSetOperator, hs]
      rfl
    · simp only [localSetOperator, hs]
      rfl

theorem tableStep_localInvite (toUser : Text) (channel : Int32) :
    TableStep h (h.localInvite sessionId toUser channel).hub e := by
  rcases hs : h.sessions.find? sessionId with _ | s
  · refine .quiet ?_ ?_ <;> simp only [localInvite, hs, ignore]
  · simp only [localInvite, hs]
    split
    · exact .quiet rfl rfl
    · exact .invited (Callsigns.normalize toUser) channel rfl (users_recordInvite h _ _)

/-- The guard keeps the entries of ours, whatever the event says. -/
theorem tableStep_hostUser (user host : Text) (timestamp : DateTimeOffset)
    (fromChannel toChannel : Int32) (personal : Text) (observer : Bool) :
    TableStep h (h.hostUser user host timestamp fromChannel toChannel personal observer).hub e := by
  refine .other ?_ fun _ => (untouched_hostUser h user host timestamp fromChannel toChannel
    personal observer (.hostPing)).flags (by simp)
  simp only [hostUser]
  repeat' split
  all_goals rfl

/-- This handler has no guard: our entries stay only if the event heeds them. -/
theorem tableStep_hostPersonal (user host text : Text) :
    TableStep h (h.hostPersonal user host text).hub (.hostPersonal user host text) := by
  refine .other ?_ fun hheeds =>
    ((untouched_hostPersonal_iff h user host text).mpr hheeds).flags (by simp)
  simp only [hostPersonal]
  split <;> rfl

/-- Nor has this one. -/
theorem tableStep_hostAway (user host : Text) (timestamp : DateTimeOffset) (text : Text) :
    TableStep h (h.hostAway user host text).hub (.hostAway user host timestamp text) := by
  refine .other ?_ fun hheeds =>
    ((untouched_hostAway_iff h user host timestamp text).mpr hheeds).flags (by simp)
  simp only [hostAway]
  split <;> rfl

theorem tableStep_hostOper (user host : Text) (channel : Int32) (grant : Bool) :
    TableStep h (h.hostOper user host channel grant).hub e := by
  simp only [hostOper]
  split
  · exact .quiet rfl rfl
  · split
    · -- nobody of the named host is listed, and the grant is made all the same
      exact .granted (Callsigns.normalize user) channel grant rfl (Or.inl rfl)
    · rename_i remote hfound
      exact .granted (Callsigns.normalize user) channel grant rfl
        (Or.inr ⟨_, remote, Callsigns.normalize_normalize user, hfound, rfl⟩)

theorem tableStep_hostInvite (source user : Text) (channel : Int32) :
    TableStep h (h.hostInvite source user channel).hub e := by
  simp only [hostInvite]
  split
  · exact .quiet rfl rfl
  · exact .invited (Callsigns.normalize user) channel rfl (users_recordInvite h _ _)

end Handlers

/-- **The inversion of a step**, one case for each kind of change. An invariant of the user table is
shown by cases on it, without a look into the handlers. -/
theorem tableStep (h : Hub) (now : DateTimeOffset) (e : ConversEvent) :
    TableStep h (step h (now, e)) e := by
  cases e with
  | localJoin sessionId callsign channel => exact tableStep_localJoin callsign channel
  | localSwitchChannel sessionId channel => exact tableStep_localSwitchChannel channel
  | localSetPersonal sessionId personal => exact tableStep_localSetPersonal personal
  | localSetAway sessionId away => exact tableStep_localSetAway away
  | localLeave sessionId reason => exact tableStep_localLeave reason
  | localSetOperator sessionId channel grant => exact tableStep_localSetOperator channel grant
  | localInvite sessionId toUser channel => exact tableStep_localInvite toUser channel
  | hostUser user host timestamp fromChannel toChannel personal observer =>
    exact tableStep_hostUser user host timestamp fromChannel toChannel personal observer
  | hostPersonal user host text => exact tableStep_hostPersonal user host text
  | hostAway user host timestamp text => exact tableStep_hostAway user host timestamp text
  | hostOper user host channel grant => exact tableStep_hostOper user host channel grant
  | hostInvite source user channel => exact tableStep_hostInvite source user channel
  | localSay | localPrivateMessage | localSetTopic | localSetMode =>
    simp only [step, advance, localSay, localPrivateMessage, localSetTopic, localSetMode]
    repeat' split
    all_goals exact .quiet rfl rfl
  | hostTopic | hostMode | hostChannelMessage | hostPrivateMessage =>
    simp only [step, advance, hostTopic, hostMode, hostChannelMessage, hostPrivateMessage]
    repeat' split
    all_goals exact .quiet rfl rfl
  | hostPing | hostPong | hostLoop | hostUnknown => exact .quiet rfl rfl

/-! ### Along a run -/

/-- Every session after a step has a canonical callsign, if those before it had. -/
theorem Canonical.step {h : Hub} (hc : h.Canonical) (now : DateTimeOffset) (e : ConversEvent) :
    (step h (now, e)).Canonical := by
  intro s hs
  rw [Attached] at hs
  cases tableStep h now e with
  | other hsessions husers =>
    rw [hsessions] at hs
    exact hc s hs
  | stored t hsessions husers ht =>
    rw [hsessions, find?_sessions_storeSession] at hs
    split at hs
    · cases hs
      rcases ht with ht | ⟨u, hu, hcall⟩
      · exact ht
      · rw [← hcall]
        exact hc u hu
    · exact hc s hs
  | dropped t ht hsessions husers =>
    rw [hsessions, find?_sessions_dropSession] at hs
    split at hs
    · cases hs
    · exact hc s hs
  | granted call channel grant hsessions husers =>
    rw [hsessions, grantOperator, find?_sessions_refresh, sessions_applyOperator] at hs
    obtain ⟨t, ht, rfl⟩ := Option.map_eq_some_iff.mp hs
    have hcall := hc t (attached_of_find? ht)
    split
    · exact hcall
    · exact hcall
  | invited call channel hsessions husers =>
    have hinvite := h.find?_sessions_recordInvite call channel
    rw [hsessions, hinvite] at hs
    obtain ⟨t, ht, rfl⟩ := Option.map_eq_some_iff.mp hs
    have hcall := hc t (attached_of_find? ht)
    split
    · exact hcall
    · exact hcall

/-- No two sessions have one callsign. -/
def Single (h : Hub) : Prop :=
  ∀ s t, h.Attached s → h.Attached t → s.callsign = t.callsign → s = t

/-- **The entry of a local user is the projection of its session.** -/
def Projected (h : Hub) : Prop :=
  ∀ s, h.Attached s → h.users.find? (s.callsign, h.hostName) = some (h.localUser s)

theorem opOn_refresh (h : Hub) (callsign call : Text) (channel : Int32) :
    (h.refreshSessionOpFlags callsign).opOn call channel = h.opOn call channel := by
  rw [refreshSessionOpFlags, foldl_refreshSession]
  rfl

/-- A session after a grant, and what it was before. -/
theorem attached_grantOperator {h : Hub} {call : Text} {channel : Int32} {grant : Bool}
    {s : LocalSession} :
    (h.grantOperator call channel grant).Attached s ↔ ∃ t, h.Attached t ∧
      s = if (h.applyOperator call channel grant).isStale (Callsigns.normalize call) t then
        (h.applyOperator call channel grant).reflag (Callsigns.normalize call) t else t := by
  rw [Attached, grantOperator, find?_sessions_refresh, sessions_applyOperator,
    Option.map_eq_some_iff]
  constructor
  · rintro ⟨t, ht, heq⟩
    exact ⟨t, attached_of_find? ht, heq.symm⟩
  · rintro ⟨t, ht, heq⟩
    refine ⟨t, ?_, heq.symm⟩
    have hid : s.id = t.id := by
      rw [heq]
      split <;> rfl
    rw [hid]
    exact ht

/-- **A grant keeps the entries projections**, when no callsign has two sessions. Then the session
that is refreshed last is the only one, and the order does not matter. -/
theorem Projected.grantOperator {h : Hub} (hp : h.Projected) (hsingle : h.Single) (call : Text)
    (channel : Int32) (grant : Bool) : (h.grantOperator call channel grant).Projected := by
  intro s hs
  obtain ⟨t, ht, heq⟩ := attached_grantOperator.mp hs
  have hlocal : ∀ u, (h.grantOperator call channel grant).localUser u = h.localUser u := by
    intro u
    simp only [localUser, hostName_grantOperator]
  have hlocal' : ∀ u, (h.applyOperator call channel grant).localUser u = h.localUser u := by
    intro u
    simp only [localUser, hostName_applyOperator]
  have hcall : s.callsign = t.callsign := by
    rw [heq]
    split <;> rfl
  rw [hlocal, hostName_grantOperator, Hub.grantOperator, find?_users_refresh,
    users_applyOperator, sessions_applyOperator]
  -- an entry stored under the callsign is that of the one session it has
  have hstored : ∀ u ∈ (((h.applyOperator call channel grant).refreshed (Callsigns.normalize call)
      h.sessions.records).map (h.applyOperator call channel grant).localUser).reverse,
      u.key = (s.callsign, h.hostName) →
        (h.applyOperator call channel grant).isStale (Callsigns.normalize call) t = true ∧
          u = h.localUser s := by
    intro u hu hkey
    simp only [refreshed, List.mem_reverse, List.mem_map, List.mem_filter] at hu
    obtain ⟨_, ⟨t', ⟨hmem, hstale⟩, rfl⟩, rfl⟩ := hu
    obtain rfl : t' = t := hsingle t' t (Table.mem_records.mp hmem) ht
      ((congrArg Prod.fst hkey).trans hcall)
    rw [if_pos hstale] at heq
    exact ⟨hstale, by rw [hlocal', heq]⟩
  rcases hfind : (((h.applyOperator call channel grant).refreshed (Callsigns.normalize call)
      h.sessions.records).map (h.applyOperator call channel grant).localUser).reverse.find?
        (NetworkUser.key · = (s.callsign, h.hostName)) with _ | u
  · by_cases hstale : (h.applyOperator call channel grant).isStale (Callsigns.normalize call) t
    · rw [if_pos hstale] at heq
      have hmem : (h.applyOperator call channel grant).localUser s ∈
          (((h.applyOperator call channel grant).refreshed (Callsigns.normalize call)
            h.sessions.records).map (h.applyOperator call channel grant).localUser).reverse := by
        simp only [refreshed, List.mem_reverse, List.mem_map, List.mem_filter]
        exact ⟨s, ⟨t, ⟨Table.mem_records.mpr ht, hstale⟩, heq.symm⟩, rfl⟩
      have hkey := List.find?_eq_none.mp hfind _ hmem
      rw [hlocal'] at hkey
      exact absurd (decide_eq_true rfl) hkey
    · rw [if_neg hstale] at heq
      rw [heq, Option.none_or]
      exact hp t ht
  · obtain ⟨-, rfl⟩ := hstored u (List.mem_of_find?_eq_some hfind)
      (of_decide_eq_true (List.find?_some hfind :))
    rfl

/-- After a grant the flags of the callsign are what the grants say. -/
theorem isOperator_grantOperator {h : Hub} {call : Text} {channel : Int32} {grant : Bool}
    {s : LocalSession} (hs : (h.grantOperator call channel grant).Attached s)
    (hcall : s.callsign = call) (hnorm : Callsigns.normalize call = call) :
    s.isOperator = (h.grantOperator call channel grant).opOn call s.channel := by
  obtain ⟨t, -, rfl⟩ := attached_grantOperator.mp hs
  rw [hnorm, grantOperator, opOn_refresh] at *
  split
  · rfl
  · rename_i hstale
    rw [if_neg hstale] at hcall
    have heq : Callsigns.equal t.callsign call = true := by
      rw [hcall]
      exact decide_eq_true rfl
    rw [isStale, heq, Bool.true_and, decide_eq_true_eq, not_not] at hstale
    exact hstale.symm

/-- **One step keeps the entries projections**, if no callsign has two sessions before or after it
and the event heeds our entries. This is what the run of the main theorem is made of. -/
theorem Projected.step {h : Hub} (hp : h.Projected) (hsingle : h.Single) (now : DateTimeOffset)
    (e : ConversEvent) (hsingle' : (step h (now, e)).Single) (hheeds : h.Heeds e) :
    (step h (now, e)).Projected := by
  intro s hs
  have hlocal : (Hub.step h (now, e)).localUser s = h.localUser s := by
    simp only [localUser, hostName_step]
  have hs' := hs
  rw [hlocal, hostName_step]
  rw [Attached] at hs'
  cases tableStep h now e with
  | other hsessions husers =>
    rw [hsessions] at hs'
    rw [husers hheeds]
    exact hp s hs'
  | stored t hsessions husers ht =>
    have htattached : (Hub.step h (now, e)).Attached t := by
      rw [Attached, hsessions, find?_sessions_storeSession, if_pos rfl]
    rw [hsessions, find?_sessions_storeSession] at hs'
    rw [husers, find?_users_storeSession]
    by_cases hcall : s.callsign = t.callsign
    · obtain rfl := hsingle' s t hs htattached hcall
      rw [if_pos rfl]
    · rw [if_neg (by simpa using hcall)]
      split at hs'
      · cases hs'
        exact absurd rfl hcall
      · exact hp s hs'
  | dropped t ht hsessions husers =>
    rw [hsessions, find?_sessions_dropSession] at hs'
    split at hs'
    · cases hs'
    · rename_i hid
      rw [husers, find?_users_dropSession, if_neg]
      · exact hp s hs'
      · intro hkey
        exact hid (congrArg LocalSession.id (hsingle s t hs' ht (congrArg Prod.fst hkey)))
  | granted call channel grant hsessions husers =>
    have hsgrant : (h.grantOperator call channel grant).Attached s := by
      rw [Attached, ← hsessions]
      exact hs'
    have hentry := hp.grantOperator hsingle call channel grant s hsgrant
    have hlocal' : (h.grantOperator call channel grant).localUser s = h.localUser s := by
      simp only [localUser, hostName_grantOperator]
    rw [hostName_grantOperator, hlocal'] at hentry
    rcases husers with husers | ⟨host, remote, hnorm, hremote, husers⟩
    · rw [husers, hentry]
    · rw [husers, Table.find?_put]
      split
      · -- the entry flagged is that of the session, and its flag is the session's
        rename_i hkey
        have hrkey : remote.key = (call, host) := Table.key_of_find? hremote
        have hk : (s.callsign, h.hostName) = (call, host) := hkey.trans hrkey
        rw [hk, hremote] at hentry
        cases hentry
        have hflag := isOperator_grantOperator hsgrant (Prod.mk.inj hk).1 hnorm
        simp only [flagUser, localUser, ← hflag]
      · exact hentry
  | invited call channel hsessions husers =>
    have hinvite := h.find?_sessions_recordInvite call channel
    rw [hsessions, hinvite] at hs'
    obtain ⟨t, ht, rfl⟩ := Option.map_eq_some_iff.mp hs'
    have hentry := hp t (attached_of_find? ht)
    rw [husers]
    split
    · exact hentry
    · exact hentry

/-- An event of a session heeds every entry. -/
theorem heeds_of_isLocal {h : Hub} {e : ConversEvent} (he : e.isLocal = true) : h.Heeds e := by
  cases e <;> trivial

/-- A hub starts without sessions. -/
theorem not_attached_of_new {hostName : Text} {store : Option ConversStore} {h : Hub}
    (hnew : new hostName store = .ok h) (s : LocalSession) : ¬h.Attached s := by
  unfold new at hnew
  split at hnew
  · cases hnew
  · cases hnew
    simp [Attached]

/-- A step keeps the callsigns canonical, in whatever order it finds the sessions. -/
theorem Canonical.stepIn {h : Hub} (hc : h.Canonical) (input : List Text × Input) :
    (stepIn h input).Canonical :=
  (canonical_enumerate.mpr hc).step input.2.1 input.2.2

/-- **A step keeps the entries projections**, in whatever order it finds the sessions. -/
theorem Projected.stepIn {h : Hub} (hp : h.Projected) (hsingle : h.Single)
    (input : List Text × Input) (hsingle' : (stepIn h input).Single)
    (hheeds : h.Heeds input.2.2) : (stepIn h input).Projected := by
  have hp' : (h.enumerate input.1).Projected := fun s hs => hp s (attached_enumerate.mp hs)
  have hone : (h.enumerate input.1).Single := fun s t hs ht =>
    hsingle s t (attached_enumerate.mp hs) (attached_enumerate.mp ht)
  exact hp'.step hone input.2.1 input.2.2 hsingle' (heeds_enumerate.mpr hheeds)

/-- **Authority over our own users**, along every run of a hub, in whatever order its steps
find the sessions: an event of the network leaves our users alone, in every such order, iff
it heeds their entries; and if no callsign ever has two sessions and every event of the
network heeds the entries, then the entry of a local user is the projection of its session
all the time. -/
theorem untouched_iff_heeds {hostName : Text} {store : Option ConversStore} {start : Hub}
    (hnew : new hostName store = .ok start) (inputs : List (List Text × Input)) :
    (∀ p ∈ Run.trace stepIn start inputs, p.2.2.2.isLocal = false →
        ((∀ order, Untouched p.1 (stepIn p.1 (order, p.2.2)) p.2.2.2) ↔ p.1.Heeds p.2.2.2)) ∧
      ((∀ p ∈ Run.trace stepIn start inputs, p.1.Single) →
        (Run.final stepIn start inputs).Single →
          (∀ p ∈ Run.trace stepIn start inputs, p.2.2.2.isLocal = false → p.1.Heeds p.2.2.2) →
            (∀ p ∈ Run.trace stepIn start inputs, p.1.Projected) ∧
              (Run.final stepIn start inputs).Projected) := by
  have hempty := not_attached_of_new hnew
  constructor
  · intro p hp he
    have hstart : start.Canonical := fun s hs => absurd hs (hempty s)
    have hcanon := (Run.invariant hstart inputs fun q _ hq => Canonical.stepIn hq q.2).1 p hp
    exact untouched_stepIn_iff hcanon p.2.2.1 he
  · intro hsingle hfinal hheeds
    have hnext := Run.forall_step hsingle hfinal
    have hstart : start.Projected := fun s hs => absurd hs (hempty s)
    refine Run.invariant hstart inputs fun p hp hprojected =>
      hprojected.stepIn (hsingle p hp) p.2 (hnext p hp) ?_
    rcases he : p.2.2.2.isLocal with _ | _
    · exact hheeds p hp he
    · exact heeds_of_isLocal he

/-- A run in which the network speaks of a user of its own, and then makes ours an
operator. -/
def exampleNetwork : List (List Text × Input) :=
  [([], exampleMoment, .localJoin "rf-1".toList "m0abc".toList 7),
    ([], exampleMoment, .hostPersonal "gb7abc".toList "FAR".toList "Fred".toList),
    (["rf-1".toList], exampleMoment, .hostOper "m0abc".toList "FAR".toList 7 true)]

/-- The personal text is of a user of another host, and the grant finds the one session of ours. -/
theorem projected_exampleNetwork :
    (Run.final stepIn (fresh "NODE".toList) exampleNetwork).Projected := by
  have hone : ∀ {h : Hub} {s : LocalSession}, h.sessions.records = [s] → h.Single := by
    intro h s hs t u ht hu _
    have hone : ∀ t, h.Attached t → t = s := by
      intro t ht
      have hmem := Table.mem_of_find? ht
      rw [hs] at hmem
      exact List.mem_singleton.mp hmem
    rw [hone t ht, hone u hu]
  refine ((untouched_iff_heeds (new_none rfl) exampleNetwork).2 ?_ (hone rfl) ?_).2
  · intro p hp
    simp only [exampleNetwork, Run.trace_cons, Run.trace_nil, List.mem_cons, List.not_mem_nil,
      or_false] at hp
    rcases hp with rfl | rfl | rfl
    · intro s t hs
      cases hs
    · exact hone rfl
    · exact hone rfl
  · intro p hp he
    simp only [exampleNetwork, Run.trace_cons, Run.trace_nil, List.mem_cons, List.not_mem_nil,
      or_false] at hp
    rcases hp with rfl | rfl | rfl
    · cases he
    · intro hhost
      exact absurd hhost (by decide +kernel)
    · -- the grant changes the flag of the one session, which the entry is of
      intro _
      decide +kernel

/-- A run in which the network sets a personal text for one of our users. -/
def exampleForged : List (List Text × Input) :=
  [([], exampleMoment, .localJoin "rf-1".toList "m0abc".toList 7),
    ([], exampleMoment, .hostPersonal "m0abc".toList "node".toList "Fred".toList)]

/-- **A personal text from the network replaces that of our own user**: the entry under
our host name is no longer that of the session. -/
theorem not_untouched_exampleForged :
    ∃ p ∈ Run.trace stepIn (fresh "NODE".toList) exampleForged, p.2.2.2.isLocal = false ∧
      ¬Untouched p.1 (stepIn p.1 p.2) p.2.2.2 := by
  refine ⟨(stepIn (fresh "NODE".toList)
      ([], exampleMoment, .localJoin "rf-1".toList "m0abc".toList 7),
    [], exampleMoment, .hostPersonal "m0abc".toList "node".toList "Fred".toList),
    by simp [exampleForged], rfl, fun huntouched => ?_⟩
  have hentry := congrArg (Option.map NetworkUser.personal) (huntouched.users "M0ABC".toList)
  revert hentry
  decide +kernel

end Hub

end Convers
