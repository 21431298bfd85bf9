import Convers.Core.Invitations

/-!
# Operator flags

Who is an operator is in two tables, and a flag on a session and on the entry of a user
says it again, for the channel they are on. Only some of the operations that change what
the flags depend on compute them anew. `Convers.Hub.KeepsFlags` is when a step does: a
join looks at the operators of all channels and not at those of its own, an entry from
another host starts without the flag, and a grant refreshes the sessions of a callsign
and at most one entry. In a run of such steps the flags are coherent everywhere
(`Convers.Hub.coherent_of_keepsFlags`).
-/

namespace Convers

namespace Hub

/-- A session is the only one of its callsign. -/
def Alone (h : Hub) (s : LocalSession) : Prop :=
  h.Attached s ∧ ∀ t, h.Attached t → t.callsign = s.callsign → t = s

/-- **The flags are coherent.** -/
structure Coherent (h : Hub) : Prop where
  /-- A session has the flag iff its callsign is an operator where it is. -/
  session : ∀ s, h.Attached s → s.isOperator = h.opOn s.callsign s.channel
  /-- The entry of a callsign with one session has its flag. -/
  entry : ∀ s, h.Alone s → ∀ u, h.users.find? (s.callsign, h.hostName) = some u →
    u.isOperator = s.isOperator
  /-- The entry of a user of another host has the flag iff the user is an operator where it
  is. -/
  remote : ∀ k u, h.users.find? k = some u → h.Remote k → u.isOperator = h.opOn u.name u.channel

/-- A join does not take the id of one of exactly two sessions of another callsign. -/
def LeavesPair (h : Hub) (sessionId call : Text) : Prop :=
  ∀ t, h.Attached t → t.id = sessionId → t.callsign ≠ call → ∀ u, h.Attached u → u ≠ t →
    u.callsign = t.callsign → ∃ v, h.Attached v ∧ v ≠ t ∧ v ≠ u ∧ v.callsign = t.callsign

/-- A grant changes nothing for the users of other hosts, but for one entry. -/
def SparesOthers (h : Hub) (call : Text) (channel : Int32) (grant : Bool)
    (named : Text × Text → Prop) : Prop :=
  ∀ k u, h.users.find? k = some u → h.Remote k → ¬named k →
    (h.applyOperator call channel grant).opOn u.name u.channel = h.opOn u.name u.channel

/-- **A step keeps the flags**: a join is not by an operator of its channel alone, a user
announced by another host is no operator, and a grant is to no user of another host but
the one it names. -/
def KeepsFlags (h : Hub) : ConversEvent → Prop
  | .localJoin sessionId callsign channel =>
    h.admits channel (Callsigns.normalize callsign) = true →
      h.opOn (Callsigns.normalize callsign) channel =
          h.isGlobalOperator (Callsigns.normalize callsign) ∧
        h.LeavesPair sessionId (Callsigns.normalize callsign)
  | .localSetOperator sessionId channel grant =>
    ∀ s, h.sessions.find? sessionId = some s →
      h.SparesOthers s.callsign channel grant fun _ => False
  | .hostUser user host _ _ toChannel _ _ => h.lists user host toChannel = true →
    h.opOn (Callsigns.normalize user) toChannel = false
  | .hostOper user host channel grant =>
    Callsigns.isValidName (Callsigns.normalize user) = true →
      h.SparesOthers (Callsigns.normalize user) channel grant
        (· = (Callsigns.normalize user, Callsigns.normalize host))
  | _ => True

/-- What a run carries: the flags are coherent, the entry of a callsign with one session is
where the session is, and callsigns are canonical. -/
structure Tracked (h : Hub) : Prop where
  coherent : h.Coherent
  place : ∀ s, h.Alone s → ∀ u, h.users.find? (s.callsign, h.hostName) = some u →
    u.channel = s.channel
  canonical : h.Canonical

/-! ### One step -/

/-- Two sessions with one id are one. -/
theorem Attached.eq_of_id {h : Hub} {s t : LocalSession} (hs : h.Attached s) (ht : h.Attached t)
    (hid : s.id = t.id) : s = t := by
  rw [Attached, hid, (ht : h.sessions.find? t.id = some t)] at hs
  exact (Option.some.inj hs).symm

theorem Tracked.of_roster {h h' : Hub} (ht : h.Tracked) (hroster : h'.roster = h.roster) :
    h'.Tracked := by
  have hhost := hostName_of_roster hroster
  have husers := users_of_roster hroster
  have halone : ∀ s, h'.Alone s → h.Alone s := fun s hs =>
    ⟨(attached_of_roster hroster).mp hs.1,
      fun t htt => hs.2 t ((attached_of_roster hroster).mpr htt)⟩
  refine ⟨⟨fun s hs => ?_, fun s hs u hu => ?_, fun k u hu hk => ?_⟩, fun s hs u hu => ?_,
    fun s hs => ht.canonical s ((attached_of_roster hroster).mp hs)⟩
  · rw [opOn_of_roster hroster]
    exact ht.coherent.session s ((attached_of_roster hroster).mp hs)
  · rw [hhost, husers] at hu
    exact ht.coherent.entry s (halone s hs) u hu
  · rw [opOn_of_roster hroster]
    rw [Remote, hhost] at hk
    rw [husers] at hu
    exact ht.coherent.remote k u hu hk
  · rw [hhost, husers] at hu
    exact ht.place s (halone s hs) u hu

/-- **A session that is stored** has the flag the operators say, and so has its entry. A join and a
switch are shown to keep the flags by it. -/
theorem Tracked.storeSession {h : Hub} (ht : h.Tracked) {s : LocalSession}
    (hflag : s.isOperator = h.opOn s.callsign s.channel)
    (hcanon : Callsigns.normalize s.callsign = s.callsign) (hpair : h.LeavesPair s.id s.callsign) :
    (h.storeSession s).Tracked := by
  have hself : (h.storeSession s).Attached s := by
    rw [Attached, find?_sessions_storeSession, if_pos rfl]
  have hkept : ∀ {t}, h.Attached t → t.id ≠ s.id → (h.storeSession s).Attached t := by
    intro t htt hid
    rw [Attached, find?_sessions_storeSession, if_neg hid]
    exact htt
  have hcases : ∀ {t}, (h.storeSession s).Attached t → t = s ∨ (h.Attached t ∧ t.id ≠ s.id) := by
    intro t htt
    rw [Attached, find?_sessions_storeSession] at htt
    split at htt
    · exact Or.inl (Option.some.inj htt).symm
    · rename_i hid
      exact Or.inr ⟨htt, hid⟩
  -- the entry of the callsign is new, and a session alone under another was so before
  have hentry : ∀ t, (h.storeSession s).Alone t → ∀ u,
      (h.storeSession s).users.find? (t.callsign, h.hostName) = some u →
        u = h.localUser t ∨ (h.Alone t ∧ h.users.find? (t.callsign, h.hostName) = some u) := by
    intro t halone u hu
    rw [find?_users_storeSession] at hu
    rcases hcases halone.1 with rfl | ⟨htt, hid⟩
    · rw [if_pos rfl] at hu
      exact Or.inl (Option.some.inj hu).symm
    · have hcall : t.callsign ≠ s.callsign := fun heq => hid (by rw [halone.2 s hself heq.symm])
      rw [if_neg (by simpa using hcall)] at hu
      refine Or.inr ⟨⟨htt, fun r hr hrt => ?_⟩, hu⟩
      by_cases hrid : r.id = s.id
      · obtain ⟨v, hv, hvr, hvt, hvcall⟩ := hpair r hr hrid (by rw [hrt]; exact hcall) t htt
          (fun heq => hid (by rw [heq]; exact hrid)) hrt.symm
        have hvid : v.id ≠ s.id := fun heq => hvr (hv.eq_of_id hr (heq.trans hrid.symm))
        exact absurd (halone.2 v (hkept hv hvid) (hvcall.trans hrt)) hvt
      · exact halone.2 r (hkept hr hrid) hrt
  refine ⟨⟨fun t htt => ?_, fun t halone u hu => ?_, fun k u hu hk => ?_⟩, fun t halone u hu => ?_,
    fun t htt => ?_⟩
  · rcases hcases htt with rfl | ⟨htt, -⟩
    · exact hflag
    · exact ht.coherent.session t htt
  · rcases hentry t halone u hu with rfl | ⟨halone', hu'⟩
    · rfl
    · exact ht.coherent.entry t halone' u hu'
  · have hne : k ≠ (s.callsign, h.hostName) := fun heq => hk (by rw [heq]; rfl)
    rw [find?_users_storeSession, if_neg hne] at hu
    exact ht.coherent.remote k u hu hk
  · rcases hentry t halone u hu with rfl | ⟨halone', hu'⟩
    · rfl
    · exact ht.place t halone' u hu'
  · rcases hcases htt with rfl | ⟨htt, -⟩
    · exact hcanon
    · exact ht.canonical t htt

/-- A session that keeps its callsign leaves no pair. -/
theorem leavesPair_of_attached {h : Hub} {s : LocalSession} (hs : h.Attached s) :
    h.LeavesPair s.id s.callsign := fun _ ht hid hcall =>
  absurd (congrArg LocalSession.callsign (ht.eq_of_id hs hid)) hcall

/-- **A session that leaves** takes the entry of its callsign with it. No entry is left that could
show the flag of a session that is gone. -/
theorem Tracked.dropSession {h : Hub} (ht : h.Tracked) {s : LocalSession} (hs : h.Attached s) :
    (h.dropSession s).Tracked := by
  have hcases : ∀ {t}, (h.dropSession s).Attached t → h.Attached t ∧ t.id ≠ s.id := by
    intro t htt
    rw [Attached, find?_sessions_dropSession] at htt
    split at htt
    · cases htt
    · rename_i hid
      exact ⟨htt, hid⟩
  have hentry : ∀ t, (h.dropSession s).Alone t → ∀ u,
      (h.dropSession s).users.find? (t.callsign, h.hostName) = some u →
        h.Alone t ∧ h.users.find? (t.callsign, h.hostName) = some u := by
    intro t halone u hu
    rw [find?_users_dropSession] at hu
    split at hu
    · cases hu
    · rename_i hkey
      refine ⟨⟨(hcases halone.1).1, fun r hr hrt => ?_⟩, hu⟩
      have hid : r.id ≠ s.id := fun hid => hkey (by rw [← hrt, hr.eq_of_id hs hid])
      refine halone.2 r ?_ hrt
      rw [Attached, find?_sessions_dropSession, if_neg hid]
      exact hr
  refine ⟨⟨fun t htt => ht.coherent.session t (hcases htt).1, fun t halone u hu => ?_,
    fun k u hu hk => ?_⟩, fun t halone u hu => ?_, fun t htt => ht.canonical t (hcases htt).1⟩
  · obtain ⟨halone', hu'⟩ := hentry t halone u hu
    exact ht.coherent.entry t halone' u hu'
  · rw [find?_users_dropSession] at hu
    split at hu
    · cases hu
    · exact ht.coherent.remote k u hu hk
  · obtain ⟨halone', hu'⟩ := hentry t halone u hu
    exact ht.place t halone' u hu'

/-- **An entry after a grant**: it is that of a session, or it was there and the sessions of its
callsign are what they were. A flag in the table is traced back by it to a session or to the table
before. -/
theorem find?_users_of_grantOperator {h : Hub} {call : Text} {channel : Int32} {grant : Bool}
    {k : Text × Text} {u : NetworkUser}
    (hu : (h.grantOperator call channel grant).users.find? k = some u) :
    (h.users.find? k = some u ∧ ∀ t, h.Attached t → (t.callsign, h.hostName) = k →
        (h.grantOperator call channel grant).Attached t) ∨
      ∃ s, (h.grantOperator call channel grant).Attached s ∧ u = h.localUser s := by
  have hlocal : ∀ s, (h.applyOperator call channel grant).localUser s = h.localUser s := by
    intro s
    simp only [localUser, hostName_applyOperator]
  rw [grantOperator, find?_users_refresh, users_applyOperator, sessions_applyOperator] at hu
  rcases hfind : (((h.applyOperator call channel grant).refreshed (Callsigns.normalize call)
      h.sessions.records).map (h.applyOperator call channel grant).localUser).reverse.find?
        (NetworkUser.key · = k) with _ | v
  · rw [hfind, Option.none_or] at hu
    refine Or.inl ⟨hu, fun t ht hkey => attached_grantOperator.mpr ⟨t, ht, ?_⟩⟩
    rw [if_neg]
    intro hstale
    refine List.find?_eq_none.mp hfind
      ((h.applyOperator call channel grant).localUser
        ((h.applyOperator call channel grant).reflag (Callsigns.normalize call) t)) ?_ ?_
    · simp only [refreshed, List.mem_reverse, List.mem_map, List.mem_filter]
      exact ⟨_, ⟨t, ⟨Table.mem_records.mpr ht, hstale⟩, rfl⟩, rfl⟩
    · rw [hlocal]
      exact decide_eq_true hkey
  · rw [hfind, Option.some_or, Option.some_inj] at hu
    subst hu
    have hmem := List.mem_of_find?_eq_some hfind
    simp only [refreshed, List.mem_reverse, List.mem_map, List.mem_filter] at hmem
    obtain ⟨_, ⟨t, ⟨hmem, hstale⟩, rfl⟩, rfl⟩ := hmem
    refine Or.inr ⟨_, attached_grantOperator.mpr ⟨t, Table.mem_records.mp hmem, ?_⟩, hlocal _⟩
    rw [if_pos hstale]

/-- **A grant** reaches the sessions of its callsign and their entry, and must spare the entries of
other hosts. An entry of another host under the same callsign has no session that would renew its
flag. -/
theorem Tracked.grantOperator {h : Hub} (ht : h.Tracked) (call : Text) (channel : Int32)
    (grant : Bool) :
    (∀ s, (h.grantOperator call channel grant).Attached s →
        s.isOperator = (h.grantOperator call channel grant).opOn s.callsign s.channel ∧
          Callsigns.normalize s.callsign = s.callsign) ∧
      ∀ s, (h.grantOperator call channel grant).Alone s → ∀ u,
        (h.grantOperator call channel grant).users.find? (s.callsign, h.hostName) = some u →
          u.isOperator = s.isOperator ∧ u.channel = s.channel := by
  refine ⟨fun s hs => ?_, fun s halone u hu => ?_⟩
  · obtain ⟨t, htt, rfl⟩ := hs.of_grantOperator
    refine ⟨?_, ht.canonical t htt⟩
    by_cases hcall : Callsigns.equal t.callsign call = true
    · simp [hcall]
    · have hne : Callsigns.normalize t.callsign ≠ Callsigns.normalize call := fun heq =>
        hcall (decide_eq_true heq)
      rw [opOn_grantOperator]
      refine (?_ : _ = t.isOperator).trans ((ht.coherent.session t htt).trans
        (opOn_applyOperator_of_ne h hne channel grant t.channel).symm)
      simp [hcall]
  · rcases find?_users_of_grantOperator hu with ⟨hu', hsame⟩ | ⟨s', hs', rfl⟩
    · obtain ⟨t, htt, hst⟩ := halone.1.of_grantOperator
      have hcall : t.callsign = s.callsign := by rw [hst]
      have hts : t = s := halone.2 t (hsame t htt (by rw [hcall])) hcall
      subst hts
      have halone' : h.Alone t := ⟨htt, fun r hr hrt =>
        halone.2 r (hsame r hr (by rw [hrt])) hrt⟩
      exact ⟨ht.coherent.entry t halone' u hu', ht.place t halone' u hu'⟩
    · have hkey : (h.localUser s').key = _ := Table.key_of_find? hu
      obtain rfl := halone.2 s' hs' (congrArg Prod.fst hkey :)
      exact ⟨rfl, rfl⟩

/-- An entry of another host after a grant that spares it. -/
theorem remote_of_grantOperator {h : Hub} (ht : h.Tracked) {call : Text} {channel : Int32}
    {grant : Bool} {named : Text × Text → Prop} (hspares : h.SparesOthers call channel grant named)
    {k : Text × Text} {u : NetworkUser}
    (hu : (h.grantOperator call channel grant).users.find? k = some u) (hk : h.Remote k)
    (hnot : ¬named k) :
    u.isOperator = (h.grantOperator call channel grant).opOn u.name u.channel := by
  rcases find?_users_of_grantOperator hu with ⟨hu', -⟩ | ⟨s, -, rfl⟩
  · rw [opOn_grantOperator, hspares k u hu' hk hnot]
    exact ht.coherent.remote k u hu' hk
  · have hkey : (h.localUser s).key = k := Table.key_of_find? hu
    exact absurd (congrArg Prod.snd hkey).symm hk

theorem Tracked.recordInvite {h : Hub} (ht : h.Tracked) (user : Text) (channel : Int32) :
    (h.recordInvite user channel).Tracked := by
  have hops : ∀ call c, (h.recordInvite user channel).opOn call c = h.opOn call c := by
    intro call c
    rw [recordInvite_eq]
    rfl
  have halone : ∀ s, (h.recordInvite user channel).Alone s → ∃ t, h.Alone t ∧
      t.callsign = s.callsign ∧ t.channel = s.channel ∧ t.isOperator = s.isOperator := by
    intro s hs
    obtain ⟨t, htt, hst⟩ := hs.1.of_recordInvite
    refine ⟨t, ⟨htt, fun r hr hrt => ?_⟩, by rw [hst], by rw [hst], by rw [hst]⟩
    -- a second session of the callsign would still be there
    obtain ⟨r', hr', hid, hcall⟩ : ∃ r', (h.recordInvite user channel).Attached r' ∧
        r'.id = r.id ∧ r'.callsign = r.callsign := by
      have hfind := find?_sessions_recordInvite h user channel r.id
      rw [(hr : h.sessions.find? r.id = some r), Option.map_some] at hfind
      refine ⟨_, attached_of_find? hfind, ?_, ?_⟩
      · split <;> rfl
      · split <;> rfl
    have heq := hs.2 r' hr' (hcall.trans (hrt.trans (by rw [hst])))
    refine hr.eq_of_id htt (hid.symm.trans ?_)
    rw [heq, hst]
  refine ⟨⟨fun s hs => ?_, fun s hs u hu => ?_, fun k u hu hk => ?_⟩, fun s hs u hu => ?_,
    fun s hs => ?_⟩
  · obtain ⟨t, htt, rfl⟩ := hs.of_recordInvite
    rw [hops]
    exact ht.coherent.session t htt
  · obtain ⟨t, htt, hcall, -, hflag⟩ := halone s hs
    rw [users_recordInvite, hostName_recordInvite, ← hcall] at hu
    rw [← hflag]
    exact ht.coherent.entry t htt u hu
  · rw [users_recordInvite] at hu
    rw [Remote, hostName_recordInvite] at hk
    rw [hops]
    exact ht.coherent.remote k u hu hk
  · obtain ⟨t, htt, hcall, hchannel, -⟩ := halone s hs
    rw [users_recordInvite, hostName_recordInvite, ← hcall] at hu
    rw [← hchannel]
    exact ht.place t htt u hu
  · obtain ⟨t, htt, rfl⟩ := hs.of_recordInvite
    exact ht.canonical t htt

/-- Another table of users, when every entry of it is right. -/
theorem Tracked.withUsers {h : Hub} (ht : h.Tracked) (users : Table NetworkUser.key)
    (hours : ∀ s, h.Alone s → ∀ u, users.find? (s.callsign, h.hostName) = some u →
      u.isOperator = s.isOperator ∧ u.channel = s.channel)
    (hothers : ∀ k u, users.find? k = some u → h.Remote k →
      u.isOperator = h.opOn u.name u.channel) : { h with users := users }.Tracked :=
  ⟨⟨ht.coherent.session, fun s hs u hu => (hours s hs u hu).1, hothers⟩,
    fun s hs u hu => (hours s hs u hu).2, ht.canonical⟩

/-- **A step that keeps the flags keeps them coherent.** The condition is that of a run, so the step
may use it of the input at hand. -/
theorem Tracked.step {h : Hub} (ht : h.Tracked) (now : DateTimeOffset) (e : ConversEvent)
    (hkeeps : h.KeepsFlags e) : (step h (now, e)).Tracked := by
  have hgrant : ∀ {call channel grant} {named : Text × Text → Prop},
      h.SparesOthers call channel grant named →
        (∀ k, named k → h.Remote k → (h.grantOperator call channel grant).users.find? k = none) →
          (h.grantOperator call channel grant).Tracked := by
    intro call channel grant named hspares hnamed
    obtain ⟨hsessions, hentries⟩ := ht.grantOperator call channel grant
    have hhost := hostName_grantOperator h call channel grant
    refine ⟨⟨fun s hs => (hsessions s hs).1, fun s hs u hu => ?_, fun k u hu hk => ?_⟩,
      fun s hs u hu => ?_, fun s hs => (hsessions s hs).2⟩
    · rw [hhost] at hu
      exact (hentries s hs u hu).1
    · rw [Remote, hhost] at hk
      refine remote_of_grantOperator ht hspares hu hk fun hname => ?_
      rw [hnamed k hname hk] at hu
      cases hu
    · rw [hhost] at hu
      exact (hentries s hs u hu).2
  cases rosterStep h now e with
  | quiet hroster => exact ht.of_roster hroster
  | @joined sessionId callsign channel hadm hroster =>
    obtain ⟨hflag, hpair⟩ := hkeeps hadm
    refine Tracked.of_roster (ht.storeSession ?_ ?_ hpair) hroster
    · exact hflag.symm
    · exact Callsigns.normalize_normalize callsign
  | @switched s channel hs hall hroster =>
    have hpair : h.LeavesPair s.id s.callsign := leavesPair_of_attached hs
    refine Tracked.of_roster ?_ hroster
    exact ht.storeSession rfl (ht.canonical s hs) hpair
  | retold s s' hs hretold hroster =>
    obtain ⟨personal, away, rfl⟩ := hretold
    have hpair : h.LeavesPair s.id s.callsign := leavesPair_of_attached hs
    refine Tracked.of_roster ?_ hroster
    exact ht.storeSession (ht.coherent.session s hs) (ht.canonical s hs) hpair
  | left hs hroster => exact Tracked.of_roster (ht.dropSession hs) hroster
  | authenticated hs hroster =>
    exact Tracked.of_roster (hgrant (hkeeps _ hs) fun _ hname => hname.elim) hroster
  | invited hs hroster => exact Tracked.of_roster (ht.recordInvite _ _) hroster
  | hostInvited hvalid hroster => exact Tracked.of_roster (ht.recordInvite _ _) hroster
  | appeared entry hlists hkey hremote hchannel hflag hroster =>
    refine Tracked.of_roster (ht.withUsers _ (fun s hs u hu => ?_) fun k u hu hk => ?_) hroster
    · rw [Table.find?_put_of_ne _ (fun heq => hremote (by rw [← heq]))] at hu
      exact ⟨ht.coherent.entry s hs u hu, ht.place s hs u hu⟩
    · rw [Table.find?_put] at hu
      split at hu
      · cases hu
        have hname : entry.name = Callsigns.normalize _ := congrArg Prod.fst hkey
        rw [hflag, hchannel, hname]
        exact (hkeeps hlists).symm
      · exact ht.coherent.remote k u hu hk
  | vanished k hremote hroster =>
    refine Tracked.of_roster (ht.withUsers _ (fun s hs u hu => ?_) fun k' u hu hk => ?_) hroster
    · rw [Table.find?_remove] at hu
      split at hu
      · cases hu
      · exact ⟨ht.coherent.entry s hs u hu, ht.place s hs u hu⟩
    · rw [Table.find?_remove] at hu
      split at hu
      · cases hu
      · exact ht.coherent.remote k' u hu hk
  | described v v' hv hkey hchannel hflag hroster =>
    refine Tracked.of_roster (ht.withUsers _ (fun s hs u hu => ?_) fun k u hu hk => ?_) hroster
    · rw [Table.find?_put, hkey] at hu
      split at hu
      · rename_i heq
        cases hu
        rw [← heq] at hv
        rw [hflag, hchannel]
        exact ⟨ht.coherent.entry s hs v hv, ht.place s hs v hv⟩
      · exact ⟨ht.coherent.entry s hs u hu, ht.place s hs u hu⟩
    · rw [Table.find?_put, hkey] at hu
      split at hu
      · rename_i heq
        cases hu
        rw [heq] at hk
        have hname : v'.name = v.name := (congrArg Prod.fst hkey :)
        rw [hflag, hchannel, hname]
        exact ht.coherent.remote v.key v hv hk
      · exact ht.coherent.remote k u hu hk
  | granted hvalid hnone hroster =>
    refine Tracked.of_roster (hgrant (hkeeps hvalid) ?_) hroster
    rintro k rfl -
    exact hnone
  | @flagged user host channel grant v hvalid hv hroster =>
    -- the entry named is set to what the operators say, and the rest is a grant
    obtain ⟨hsessions, hentries⟩ := ht.grantOperator (Callsigns.normalize user) channel grant
    have hhost := hostName_grantOperator h (Callsigns.normalize user) channel grant
    have hkey : v.key = (Callsigns.normalize user, Callsigns.normalize host) :=
      Table.key_of_find? hv
    have hours : ∀ s, (h.grantOperator (Callsigns.normalize user) channel grant).Alone s → ∀ u,
        ((h.grantOperator (Callsigns.normalize user) channel grant).users.put
          ((h.grantOperator (Callsigns.normalize user) channel grant).flagUser
            (Callsigns.normalize user) v)).find? (s.callsign, h.hostName) = some u →
          u.isOperator = s.isOperator ∧ u.channel = s.channel := by
      intro s hs u hu
      rw [Table.find?_put] at hu
      split at hu
      · rename_i heq
        have hname : (s.callsign, h.hostName) =
            (Callsigns.normalize user, Callsigns.normalize host) := heq.trans hkey
        cases hu
        rw [← hname] at hv
        have hplace := (hentries s hs v hv).2
        refine ⟨?_, hplace⟩
        rw [(hsessions s hs.1).1, flagUser, hplace, (Prod.mk.inj hname).1]
      · exact hentries s hs u hu
    have hothers : ∀ k u, ((h.grantOperator (Callsigns.normalize user) channel grant).users.put
          ((h.grantOperator (Callsigns.normalize user) channel grant).flagUser
            (Callsigns.normalize user) v)).find? k = some u → h.Remote k →
          u.isOperator =
            (h.grantOperator (Callsigns.normalize user) channel grant).opOn u.name u.channel := by
      intro k u hu hk
      rw [Table.find?_put] at hu
      split at hu
      · have hname : v.name = Callsigns.normalize user := (congrArg Prod.fst hkey :)
        cases hu
        simp only [flagUser, hname]
      · rename_i hne
        exact remote_of_grantOperator ht (hkeeps hvalid) hu hk fun heq =>
          hne (heq.trans hkey.symm)
    refine Tracked.of_roster ?_ hroster
    refine ⟨⟨fun s hs => (hsessions s hs).1, fun s hs u hu => ?_, fun k u hu hk => ?_⟩,
      fun s hs u hu => ?_, fun s hs => (hsessions s hs).2⟩
    · exact (hours s hs u (hhost ▸ hu)).1
    · have hk' : h.Remote k := fun heq => hk (heq.trans hhost.symm)
      exact hothers k u hu hk'
    · exact (hours s hs u (hhost ▸ hu)).2

/-! ### Along a run -/

/-- A hub starts with nothing to flag. -/
theorem tracked_of_new {hostName : Text} {store : Option ConversStore} {h : Hub}
    (hnew : new hostName store = .ok h) : h.Tracked := by
  have hnone := not_attached_of_new hnew
  have husers : h.users = Table.empty := by
    unfold new at hnew
    split at hnew
    · cases hnew
    · cases hnew
      rfl
  refine ⟨⟨fun s hs => absurd hs (hnone s), fun s hs => absurd hs.1 (hnone s), fun k u hu => ?_⟩,
    fun s hs => absurd hs.1 (hnone s), fun s hs => absurd hs (hnone s)⟩
  rw [husers, Table.find?_empty] at hu
  cases hu

/-- **In a run whose steps keep the flags, the flags are coherent everywhere.** A flag that a
session is shown is so the one that its entry shows to the others. -/
theorem coherent_of_keepsFlags {hostName : Text} {store : Option ConversStore} {start : Hub}
    (hnew : new hostName store = .ok start) (inputs : List Input)
    (hkeeps : ∀ p ∈ Run.trace step start inputs, p.1.KeepsFlags p.2.2) :
    (∀ p ∈ Run.trace step start inputs, p.1.Coherent) ∧
      (Run.final step start inputs).Coherent := by
  obtain ⟨hall, hfinal⟩ := Run.invariant (tracked_of_new hnew) inputs fun p hp ht =>
    ht.step p.2.1 p.2.2 (hkeeps p hp)
  exact ⟨fun p hp => (hall p hp).coherent, hfinal.coherent⟩

/-- A session that becomes an operator of its channel. -/
def exampleOffice : List Input :=
  [(⟨0, zero_ticks_le⟩, .localJoin "web-1".toList "m0abc".toList 7),
    (⟨0, zero_ticks_le⟩, .localSetOperator "web-1".toList 7 true)]

/-- The flags of the session and its entry. -/
theorem coherent_exampleOffice :
    (∀ p ∈ Run.trace step (fresh "NODE".toList) exampleOffice, p.1.Coherent) ∧
      (Run.final step (fresh "NODE".toList) exampleOffice).Coherent := by
  refine coherent_of_keepsFlags (@new_none "NODE".toList (by decide)) exampleOffice fun p hp => ?_
  simp only [exampleOffice, Run.trace_cons, Run.trace_nil, List.mem_cons, List.not_mem_nil,
    or_false] at hp
  rcases hp with rfl | rfl
  · refine fun _ => ⟨by decide +kernel, fun t ht => ?_⟩
    cases ht
  · rintro s - k u hu hk -
    -- the only entry is our own
    have hentries : ∀ v ∈ (step (fresh "NODE".toList) (⟨0, zero_ticks_le⟩,
        .localJoin "web-1".toList "m0abc".toList 7)).users.records, v.host = "NODE".toList := by
      decide +kernel
    refine absurd ?_ hk
    rw [← (Table.key_of_find? hu : u.key = k)]
    exact hentries u (Table.mem_of_find? hu)

/-- The operator leaves and comes back. -/
def exampleReturn : List Input :=
  exampleOffice ++ [(⟨0, zero_ticks_le⟩, .localLeave "web-1".toList "bye".toList),
    (⟨0, zero_ticks_le⟩, .localJoin "web-2".toList "m0abc".toList 7)]

/-- **An operator of a channel who joins it has no flag.** A switch asks for it, and a join does
not. -/
theorem not_coherent_exampleReturn :
    ¬(Run.final step (fresh "NODE".toList) exampleReturn).Coherent := by
  intro hcoherent
  have hsession : ∀ s ∈ (Run.final step (fresh "NODE".toList) exampleReturn).sessions.records,
      s.isOperator = false ∧
        (Run.final step (fresh "NODE".toList) exampleReturn).opOn s.callsign s.channel = true := by
    decide +kernel
  have hthere : (Run.final step (fresh "NODE".toList) exampleReturn).sessions.records ≠ [] := by
    decide +kernel
  obtain ⟨s, hs⟩ := List.exists_mem_of_ne_nil _ hthere
  obtain ⟨hflag, hop⟩ := hsession s hs
  rw [hcoherent.session s (Table.mem_records.mp hs), hop] at hflag
  cases hflag

end Hub

end Convers
