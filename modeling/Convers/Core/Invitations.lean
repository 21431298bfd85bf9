import Convers.Core.Roster

/-!
# Channels by invitation

A channel that is private or invisible is entered by invitation, or by an operator.
Entry is checked in two places: a join looks at the tables of the hub, and a switch at
what the session was last shown of them. `Convers.Hub.Vouched` is why the second is as
good as the first: what a session was shown is in the tables, and what is in the tables
was asked for by an event of the run.

What a switch sees of the operators is the flag of the session, which is for the channel
the session is about to leave; `Convers.Hub.enters_by_right` is about all the other
entries.
-/

namespace Convers

namespace Hub

/-- An event invites a callsign to a channel: it is from another host, or from a session
that is attached. -/
def invitesTo (h : Hub) (call : Text) (c : Int32) : ConversEvent → Bool
  | .hostInvite _ user channel => Callsigns.normalize user = call && channel = c
  | .localInvite sessionId toUser channel =>
    (h.sessions.find? sessionId).isSome && Callsigns.normalize toUser = call && channel = c
  | _ => false

/-- An event invites a callsign to a channel from there: it is from another host, or from
a session of another callsign on the channel. -/
def invitesToFromThere (h : Hub) (call : Text) (c : Int32) : ConversEvent → Bool
  | .hostInvite _ user channel => Callsigns.normalize user = call && channel = c
  | .localInvite sessionId toUser channel =>
    (h.sessions.find? sessionId).any (fun s => s.callsign ≠ call && s.channel = c) &&
      Callsigns.normalize toUser = call && channel = c
  | _ => false

/-- A callsign was invited to a channel in a run. -/
def Named (by' : Hub → Text → Int32 → ConversEvent → Bool) (start : Hub) (inputs : List Input)
    (call : Text) (c : Int32) : Prop :=
  ∃ p ∈ Run.trace step start inputs, by' p.1 call c p.2.2 = true

/-- A session is after a step on a channel where its callsign was not under its id. -/
def MovesOnto (h : Hub) (input : Input) (s : LocalSession) : Prop :=
  (step h input).Attached s ∧
    ∀ t, h.Attached t → t.id = s.id → t.callsign = s.callsign → t.channel ≠ s.channel

/-- A session has the right to its channel after a run: its callsign is an operator, of
all channels or of this one, or was invited to it. -/
def Rightful (by' : Hub → Text → Int32 → ConversEvent → Bool) (start : Hub) (inputs : List Input)
    (s : LocalSession) : Prop :=
  (Run.final step start inputs).isGlobalOperator s.callsign = true ∨
    (Run.final step start inputs).isChannelOperator s.callsign s.channel = true ∨
      Named by' start inputs s.callsign s.channel

/-- A session that moves onto a channel by invitation has the right to. -/
def EntersByRight (by' : Hub → Text → Int32 → ConversEvent → Bool) (start : Hub)
    (inputs : List Input) (input : Input) : Prop :=
  ∀ s, MovesOnto (Run.final step start inputs) input s →
    ChannelModes.requiresInvite ((Run.final step start inputs).modesOf s.channel) = true →
      Rightful by' start inputs s

/-- **What the hub shows and keeps is vouched for**: a flag by the operators, what a session
was shown by the invitations, and an invitation by an event. -/
structure Vouched (asked : Text → Int32 → Prop) (h : Hub) : Prop where
  flags : ∀ s, h.Attached s → s.isOperator = true → h.opOn s.callsign s.channel = true
  shown : ∀ s, h.Attached s → s.invitedChannels ⊆ h.invitesFor s.callsign
  asked : ∀ call c, c ∈ h.invitesFor call → asked (Callsigns.normalize call) c

/-! ### One step -/

theorem attached_of_roster {h h' : Hub} (hroster : h'.roster = h.roster) {s : LocalSession} :
    h'.Attached s ↔ h.Attached s := by
  rw [Attached, sessions_of_roster hroster, Attached]

/-- The invitations after one more. -/
theorem mem_invitesFor_recordInvite (h : Hub) (user : Text) (channel : Int32) (call : Text)
    (c : Int32) :
    c ∈ (h.recordInvite user channel).invitesFor call ↔
      c ∈ h.invitesFor call ∨
        (Callsigns.normalize user = Callsigns.normalize call ∧ channel = c) := by
  have hinvites : (h.recordInvite user channel).invitesFor call =
      (h.withInvite user channel).invitesFor call := by
    rw [recordInvite_eq]
    rfl
  rw [hinvites]
  simp only [invitesFor, withInvite, Table.Dict.get?_set]
  by_cases hcall : Callsigns.normalize call = Callsigns.normalize user
  · rw [if_pos hcall, hcall, Option.getD_some, Finset.mem_insert]
    simp [eq_comm, or_comm]
  · rw [if_neg hcall]
    simp [Ne.symm hcall]

/-- A session after an invitation: who and where it was, shown what its callsign is
invited to if the invitation is for it. -/
theorem Attached.of_recordInvite {h : Hub} {user : Text} {channel : Int32} {s : LocalSession}
    (hs : (h.recordInvite user channel).Attached s) :
    ∃ t, h.Attached t ∧ s = { t with
      invitedChannels := if Callsigns.equal t.callsign user then
        (h.recordInvite user channel).invitesFor t.callsign else t.invitedChannels } := by
  rw [Attached, find?_sessions_recordInvite] at hs
  obtain ⟨t, ht, hst⟩ := Option.map_eq_some_iff.mp hs
  refine ⟨t, attached_of_find? ht, ?_⟩
  have hequal : Callsigns.equal t.callsign (Callsigns.normalize user) =
      Callsigns.equal t.callsign user := by
    rw [Callsigns.equal, Callsigns.equal, Callsigns.normalize_normalize]
  rw [← hst, hequal]
  by_cases hcall : Callsigns.equal t.callsign user = true
  · have hnorm : Callsigns.normalize t.callsign = Callsigns.normalize user :=
      of_decide_eq_true hcall
    rw [if_pos hcall, if_pos hcall, recordInvite_eq, inviteSession]
    simp only [invitesFor, Callsigns.normalize_normalize, hnorm]
  · rw [if_neg hcall, if_neg hcall]

section Step

variable {asked asked' : Text → Int32 → Prop} {h h' : Hub}

/-- A roster that stays is as well vouched for. -/
theorem Vouched.of_roster (hv : h.Vouched asked) (hroster : h'.roster = h.roster)
    (hmono : ∀ call c, asked call c → asked' call c) : h'.Vouched asked' where
  flags s hs := by
    rw [opOn_of_roster hroster]
    exact hv.flags s ((attached_of_roster hroster).mp hs)
  shown s hs := by
    rw [invitesFor_of_roster hroster]
    exact hv.shown s ((attached_of_roster hroster).mp hs)
  asked call c hc := by
    rw [invitesFor_of_roster hroster] at hc
    exact hmono _ _ (hv.asked call c hc)

/-- A session that is stored is vouched for if its flag and what it was shown are. -/
theorem Vouched.storeSession (hv : h.Vouched asked) {s : LocalSession}
    (hflag : s.isOperator = true → h.opOn s.callsign s.channel = true)
    (hshown : s.invitedChannels ⊆ h.invitesFor s.callsign) : (h.storeSession s).Vouched asked where
  flags t ht hop := by
    rw [Attached, find?_sessions_storeSession] at ht
    split at ht
    · cases ht
      exact hflag hop
    · exact hv.flags t ht hop
  shown t ht := by
    rw [Attached, find?_sessions_storeSession] at ht
    split at ht
    · cases ht
      exact hshown
    · exact hv.shown t ht
  asked := hv.asked

/-- The users have no say. -/
theorem Vouched.withUsers (hv : h.Vouched asked) (users : Table NetworkUser.key) :
    { h with users := users }.Vouched asked := ⟨hv.flags, hv.shown, hv.asked⟩

theorem Vouched.dropSession (hv : h.Vouched asked) (s : LocalSession) :
    (h.dropSession s).Vouched asked where
  flags t ht := by
    rw [Attached, find?_sessions_dropSession] at ht
    split at ht
    · cases ht
    · exact hv.flags t ht
  shown t ht := by
    rw [Attached, find?_sessions_dropSession] at ht
    split at ht
    · cases ht
    · exact hv.shown t ht
  asked := hv.asked

/-- A grant or a revocation reaches the flags of its callsign. -/
theorem Vouched.grantOperator (hv : h.Vouched asked) (call : Text) (channel : Int32)
    (grant : Bool) : (h.grantOperator call channel grant).Vouched asked := by
  have hinvites : ∀ call', (h.grantOperator call channel grant).invitesFor call' =
      h.invitesFor call' := by
    intro call'
    rw [Hub.grantOperator, refreshSessionOpFlags, foldl_refreshSession, applyOperator]
    repeat' split
    all_goals rfl
  refine ⟨fun s hs hop => ?_, fun s hs => ?_, fun call' c hc => ?_⟩
  · obtain ⟨t, ht, rfl⟩ := hs.of_grantOperator
    by_cases hcall : Callsigns.equal t.callsign call = true
    · simpa [hcall] using hop
    · have hne : Callsigns.normalize t.callsign ≠ Callsigns.normalize call := fun heq =>
        hcall (decide_eq_true heq)
      rw [opOn_grantOperator]
      refine (opOn_applyOperator_of_ne h hne channel grant t.channel).trans (hv.flags t ht ?_)
      simpa [hcall] using hop
  · obtain ⟨t, ht, rfl⟩ := hs.of_grantOperator
    rw [hinvites]
    exact hv.shown t ht
  · rw [hinvites] at hc
    exact hv.asked call' c hc

/-- An invitation is vouched for by the event that asks for it. -/
theorem Vouched.recordInvite (hv : h.Vouched asked) {user : Text} {channel : Int32}
    (hmono : ∀ call c, asked call c → asked' call c)
    (hnew : asked' (Callsigns.normalize user) channel) :
    (h.recordInvite user channel).Vouched asked' := by
  have hops : ∀ call c, (h.recordInvite user channel).opOn call c = h.opOn call c := by
    intro call c
    rw [recordInvite_eq]
    rfl
  refine ⟨fun s hs hop => ?_, fun s hs => ?_, fun call c hc => ?_⟩
  · obtain ⟨t, ht, rfl⟩ := hs.of_recordInvite
    rw [hops]
    exact hv.flags t ht hop
  · obtain ⟨t, ht, rfl⟩ := hs.of_recordInvite
    dsimp only
    split
    · exact Finset.Subset.refl _
    · intro c hc
      exact (mem_invitesFor_recordInvite h user channel _ c).mpr (Or.inl (hv.shown t ht hc))
  · rcases (mem_invitesFor_recordInvite h user channel call c).mp hc with hc | ⟨hcall, rfl⟩
    · exact hmono _ _ (hv.asked call c hc)
    · rw [← hcall]
      exact hnew

/-- **One step keeps everything vouched for**, when the invitations it makes are asked for. The
condition is on what is asked for so far, which only grows. -/
theorem Vouched.step (hv : h.Vouched asked) (now : DateTimeOffset) (e : ConversEvent)
    (hmono : ∀ call c, asked call c → asked' call c)
    (hnew : ∀ call c, h.invitesTo call c e = true → asked' call c) :
    (step h (now, e)).Vouched asked' := by
  have hstay : h.Vouched asked' := hv.of_roster rfl hmono
  cases rosterStep h now e with
  | quiet hroster => exact hstay.of_roster hroster fun _ _ => id
  | joined hadm hroster =>
    refine Vouched.of_roster (hstay.storeSession ?_ ?_) hroster fun _ _ => id
    · intro hop
      exact Bool.or_eq_true_iff.mpr (Or.inl hop)
    · exact Finset.Subset.refl _
  | @switched s channel hs hall hroster =>
    refine Vouched.of_roster ?_ hroster fun _ _ => id
    exact hstay.storeSession id (hstay.shown s hs)
  | retold s s' hs hretold hroster =>
    obtain ⟨personal, away, rfl⟩ := hretold
    refine Vouched.of_roster ?_ hroster fun _ _ => id
    exact hstay.storeSession (hstay.flags s hs) (hstay.shown s hs)
  | left hs hroster => exact Vouched.of_roster (hstay.dropSession _) hroster fun _ _ => id
  | authenticated hs hroster =>
    exact Vouched.of_roster (hstay.grantOperator _ _ _) hroster fun _ _ => id
  | invited hs hroster =>
    refine Vouched.of_roster (hstay.recordInvite (fun _ _ => id) (hnew _ _ ?_)) hroster
      fun _ _ => id
    rw [Attached] at hs
    simp [invitesTo, hs]
  | hostInvited hvalid hroster =>
    refine Vouched.of_roster (hstay.recordInvite (fun _ _ => id) (hnew _ _ ?_)) hroster
      fun _ _ => id
    simp [invitesTo]
  | appeared entry hlists hkey hremote hchannel hflag hroster =>
    exact Vouched.of_roster (hstay.withUsers _) hroster fun _ _ => id
  | vanished k hremote hroster =>
    exact Vouched.of_roster (hstay.withUsers _) hroster fun _ _ => id
  | described u u' hu hkey hchannel hflag hroster =>
    exact Vouched.of_roster (hstay.withUsers _) hroster fun _ _ => id
  | granted hvalid hnone hroster =>
    exact Vouched.of_roster (hstay.grantOperator _ _ _) hroster fun _ _ => id
  | flagged u hvalid hu hroster =>
    exact Vouched.of_roster ((hstay.grantOperator _ _ _).withUsers _) hroster fun _ _ => id

end Step

/-! ### Along a run -/

/-- **In a run everything is vouched for** by what was asked for in it. So who asked for an
invitation can be told from the run alone. -/
theorem vouched_final {hostName : Text} {store : Option ConversStore} {start : Hub}
    (hnew : new hostName store = .ok start) (inputs : List Input) :
    (Run.final step start inputs).Vouched (Named invitesTo start inputs) ∧
      (Run.final step start inputs).Canonical := by
  induction inputs using List.reverseRecOn with
  | nil =>
    have hnone := not_attached_of_new hnew
    have hinvites : start.invites = Table.empty := by
      unfold new at hnew
      split at hnew
      · cases hnew
      · cases hnew
        rfl
    refine ⟨⟨fun s hs => absurd hs (hnone s), fun s hs => absurd hs (hnone s), fun call c hc => ?_⟩,
      fun s hs => absurd hs (hnone s)⟩
    rw [Run.final_nil, invitesFor, hinvites, Table.Dict.get?_empty] at hc
    simp at hc
  | append_singleton inputs input ih =>
    rw [Run.final_append]
    refine ⟨ih.1.step input.1 input.2 ?_ ?_, ih.2.step input.1 input.2⟩
    · rintro call c ⟨p, hp, hasked⟩
      refine ⟨p, ?_, hasked⟩
      rw [Run.trace_append]
      exact List.mem_append_left _ hp
    · intro call c hasked
      refine ⟨(Run.final step start inputs, input), ?_, hasked⟩
      rw [Run.trace_append]
      exact List.mem_append_right _ (by simp)

/-- **What a step moves**: a session that joins or switches. No other event puts a session onto a
channel, so there are these two gates to look at. -/
theorem MovesOnto.cases {h : Hub} {now : DateTimeOffset} {e : ConversEvent} {s : LocalSession}
    (hmoves : MovesOnto h (now, e) s) :
    (∃ callsign, e = .localJoin s.id callsign s.channel ∧
        s.callsign = Callsigns.normalize callsign ∧ h.admits s.channel s.callsign = true) ∨
      ∃ t, h.Attached t ∧ e = .localSwitchChannel t.id s.channel ∧ s.callsign = t.callsign ∧
        h.allows s.channel t = true := by
  obtain ⟨hs, hnew⟩ := hmoves
  -- a session that was there as it is has not moved
  have hstays : ∀ t, h.Attached t → t.id = s.id → t.callsign = s.callsign →
      t.channel = s.channel → False := fun t ht hid hcall hchannel => hnew t ht hid hcall hchannel
  have hsame : ∀ h' : Hub, (Hub.step h (now, e)).roster = h'.roster → h'.Attached s :=
    fun h' hroster => (attached_of_roster hroster).mp hs
  cases rosterStep h now e with
  | quiet hroster => exact (hstays s (hsame _ hroster) rfl rfl rfl).elim
  | @joined sessionId callsign channel hadm hroster =>
    have hs' := hsame _ hroster
    rw [Attached, find?_sessions_storeSession] at hs'
    split at hs'
    · cases hs'
      exact Or.inl ⟨callsign, rfl, rfl, hadm⟩
    · exact (hstays s hs' rfl rfl rfl).elim
  | @switched t channel ht hall hroster =>
    have hs' := hsame _ hroster
    rw [Attached, find?_sessions_storeSession] at hs'
    split at hs'
    · cases hs'
      exact Or.inr ⟨t, ht, rfl, rfl, hall⟩
    · exact (hstays s hs' rfl rfl rfl).elim
  | retold t t' ht hretold hroster =>
    obtain ⟨personal, away, rfl⟩ := hretold
    have hs' := hsame _ hroster
    rw [Attached, find?_sessions_storeSession] at hs'
    split at hs'
    · cases hs'
      exact (hstays t ht rfl rfl rfl).elim
    · exact (hstays s hs' rfl rfl rfl).elim
  | left ht hroster =>
    have hs' := hsame _ hroster
    rw [Attached, find?_sessions_dropSession] at hs'
    split at hs'
    · cases hs'
    · exact (hstays s hs' rfl rfl rfl).elim
  | authenticated ht hroster =>
    obtain ⟨t, ht, rfl⟩ := (hsame _ hroster).of_grantOperator
    exact (hstays t ht rfl rfl rfl).elim
  | invited ht hroster =>
    obtain ⟨t, ht, rfl⟩ := (hsame _ hroster).of_recordInvite
    exact (hstays t ht rfl rfl rfl).elim
  | hostInvited hvalid hroster =>
    obtain ⟨t, ht, rfl⟩ := (hsame _ hroster).of_recordInvite
    exact (hstays t ht rfl rfl rfl).elim
  | appeared entry hlists hkey hremote hchannel hflag hroster =>
    exact (hstays s (hsame { h with users := h.users.put entry } hroster) rfl rfl rfl).elim
  | vanished k hremote hroster =>
    exact (hstays s (hsame { h with users := h.users.remove k } hroster) rfl rfl rfl).elim
  | described u u' hu hkey hchannel hflag hroster =>
    exact (hstays s (hsame { h with users := h.users.put u' } hroster) rfl rfl rfl).elim
  | granted hvalid hnone hroster =>
    obtain ⟨t, ht, rfl⟩ := (hsame _ hroster).of_grantOperator
    exact (hstays t ht rfl rfl rfl).elim
  | @flagged user host channel grant u hvalid hu hroster =>
    have hs' : (h.grantOperator (Callsigns.normalize user) channel grant).Attached s :=
      (hsame _ hroster :)
    obtain ⟨t, ht, rfl⟩ := hs'.of_grantOperator
    exact (hstays t ht rfl rfl rfl).elim

/-- **A channel by invitation is entered by right**, in every run of a hub: whoever moves
onto it is an operator, or was invited to it, unless it is a session that switches from a
channel it is an operator of. -/
theorem enters_by_right {hostName : Text} {store : Option ConversStore} {start : Hub}
    (hnew : new hostName store = .ok start) (inputs : List Input) (input : Input)
    (hswitch : ∀ t channel, (Run.final step start inputs).Attached t →
      input.2 = .localSwitchChannel t.id channel →
        (Run.final step start inputs).isChannelOperator t.callsign t.channel = false) :
    EntersByRight invitesTo start inputs input := by
  intro s hmoves hinvite
  obtain ⟨hv, hcanon⟩ := vouched_final hnew inputs
  obtain ⟨now, e⟩ := input
  have hasked : ∀ call, Callsigns.normalize call = call →
      s.channel ∈ (Run.final step start inputs).invitesFor call →
        Named invitesTo start inputs call s.channel := by
    intro call hnorm hmem
    rw [← hnorm]
    exact hv.asked call s.channel hmem
  rcases hmoves.cases with ⟨callsign, -, hcall, hadm⟩ | ⟨t, ht, he, hcall, hall⟩
  · simp only [admits, hinvite, Bool.not_true, Bool.false_or, Bool.and_eq_true,
      Bool.or_eq_true] at hadm
    rcases hadm.2 with hinvited | hop
    · refine Or.inr (Or.inr (hasked s.callsign ?_ ?_))
      · rw [hcall, Callsigns.normalize_normalize]
      · rw [isInvitedTo] at hinvited
        rw [invitesFor]
        split at hinvited
        · rename_i channels hget
          rw [hget]
          exact of_decide_eq_true hinvited
        · cases hinvited
    · exact Or.inl hop
  · simp only [allows, hinvite, Bool.not_true, Bool.false_or, Bool.and_eq_true,
      Bool.or_eq_true, decide_eq_true_eq] at hall
    rcases hall.2 with hflag | hshown
    · -- the flag is of the channel left, where the callsign is no operator
      have hop := hv.flags t ht hflag
      rw [opOn, hswitch t s.channel ht he, Bool.or_false] at hop
      exact Or.inl (hcall ▸ hop)
    · refine Or.inr (Or.inr (hasked s.callsign ?_ ?_))
      · rw [hcall]
        exact hcanon t ht
      · rw [hcall]
        exact hv.shown t ht hshown

/-- A node with a private channel 9, and an invitation to it from channel 7. -/
def exampleInvited : List Input :=
  [(⟨0, zero_ticks_le⟩, .hostMode 9 "+p".toList),
    (⟨0, zero_ticks_le⟩, .localJoin "web-1".toList "m0abc".toList 7),
    (⟨0, zero_ticks_le⟩, .localInvite "web-1".toList "g4xyz".toList 9)]

/-- The join of the one invited. -/
def exampleGuest : Input := (⟨0, zero_ticks_le⟩, .localJoin "web-2".toList "g4xyz".toList 9)

/-- The one invited enters by right. -/
theorem enters_by_right_exampleGuest :
    EntersByRight invitesTo (fresh "NODE".toList) exampleInvited exampleGuest :=
  enters_by_right (@new_none "NODE".toList (by decide)) exampleInvited exampleGuest
    (by simp [exampleGuest])

/-- What the guest does, and what has been asked for before. -/
theorem movesOnto_exampleGuest :
    (∀ s ∈ (step (Run.final step (fresh "NODE".toList) exampleInvited) exampleGuest).sessions.find?
        "web-2".toList, s.id = "web-2".toList ∧ s.callsign = "G4XYZ".toList ∧ s.channel = 9) ∧
      ((step (Run.final step (fresh "NODE".toList) exampleInvited) exampleGuest).sessions.find?
        "web-2".toList).isSome = true ∧
      (Run.final step (fresh "NODE".toList) exampleInvited).sessions.find? "web-2".toList = none ∧
      ChannelModes.requiresInvite
        ((Run.final step (fresh "NODE".toList) exampleInvited).modesOf 9) = true ∧
      (Run.final step (fresh "NODE".toList) exampleInvited).isGlobalOperator "G4XYZ".toList =
        false ∧
      (Run.final step (fresh "NODE".toList) exampleInvited).isChannelOperator "G4XYZ".toList 9 =
        false ∧
      ∀ p ∈ Run.trace step (fresh "NODE".toList) exampleInvited,
        invitesToFromThere p.1 "G4XYZ".toList 9 p.2.2 = false := by
  decide +kernel

/-- **An invitation from another channel lets its guest in.** The gate looks at who was invited, and
not at where the invitation was sent from. -/
theorem not_entersByRight_exampleGuest :
    ¬EntersByRight invitesToFromThere (fresh "NODE".toList) exampleInvited exampleGuest := by
  intro henters
  obtain ⟨hwho, hthere, hnew, hmode, hglobal, hchannel, hasked⟩ := movesOnto_exampleGuest
  obtain ⟨s, hs⟩ := Option.isSome_iff_exists.mp hthere
  obtain ⟨hid, hcall, hon⟩ := hwho s hs
  have hmoves : MovesOnto (Run.final step (fresh "NODE".toList) exampleInvited) exampleGuest s := by
    refine ⟨attached_of_find? hs, fun t ht htid => ?_⟩
    rw [Attached, htid, hid, hnew] at ht
    cases ht
  rcases henters s hmoves (by rw [hon]; exact hmode) with hop | hop | ⟨p, hp, hinvites⟩
  · rw [hcall, hglobal] at hop
    cases hop
  · rw [hcall, hon, hchannel] at hop
    cases hop
  · rw [hcall, hon, hasked p hp] at hinvites
    cases hinvites

end Hub

end Convers
