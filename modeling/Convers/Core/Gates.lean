import Convers.Core.OperatorFlags

/-!
# Two gates to one channel

A channel by invitation has two gates. A join asks the tables of the hub whether the
callsign is invited, or an operator everywhere; a switch asks what the session was
last shown of them. What a session is shown is exact (`Convers.Hub.Cached`): its
invitations are those of its callsign, and an operator everywhere has the flag.

| | join | switch |
|---|---|---|
| the channel is open | lets in | lets in |
| the callsign is invited | lets in | lets in |
| an operator everywhere | lets in | lets in |
| an operator of the channel that is left | refuses | lets in |

The last row is where the gates differ (`Convers.Hub.gates_agree_iff`).
-/

namespace Convers

namespace Hub

/-- **What a session is shown is exact**: it has the flag if its callsign is an operator
everywhere, and the invitations of its callsign. -/
structure Cached (h : Hub) : Prop where
  operators : ∀ s, h.Attached s → h.isGlobalOperator s.callsign = true → s.isOperator = true
  invitations : ∀ s, h.Attached s → s.invitedChannels = h.invitesFor s.callsign

/-! ### One step -/

section Step

variable {h h' : Hub}

theorem isGlobalOperator_of_roster (hroster : h'.roster = h.roster) (call : Text) :
    h'.isGlobalOperator call = h.isGlobalOperator call :=
  (congrArg (Hub.isGlobalOperator · call) hroster :)

theorem Cached.of_roster (hc : h.Cached) (hroster : h'.roster = h.roster) : h'.Cached where
  operators s hs hop := by
    rw [isGlobalOperator_of_roster hroster] at hop
    exact hc.operators s ((attached_of_roster hroster).mp hs) hop
  invitations s hs := by
    rw [invitesFor_of_roster hroster]
    exact hc.invitations s ((attached_of_roster hroster).mp hs)

/-- A session that is stored is shown what it should be, if it comes so. -/
theorem Cached.storeSession (hc : h.Cached) {s : LocalSession}
    (hop : h.isGlobalOperator s.callsign = true → s.isOperator = true)
    (hinvites : s.invitedChannels = h.invitesFor s.callsign) : (h.storeSession s).Cached where
  operators t ht := by
    rw [Attached, find?_sessions_storeSession] at ht
    split at ht
    · cases ht
      exact hop
    · exact hc.operators t ht
  invitations t ht := by
    rw [Attached, find?_sessions_storeSession] at ht
    split at ht
    · cases ht
      exact hinvites
    · exact hc.invitations t ht

theorem Cached.withUsers (hc : h.Cached) (users : Table NetworkUser.key) :
    { h with users := users }.Cached := ⟨hc.operators, hc.invitations⟩

theorem Cached.dropSession (hc : h.Cached) (s : LocalSession) : (h.dropSession s).Cached where
  operators t ht := by
    rw [Attached, find?_sessions_dropSession] at ht
    split at ht
    · cases ht
    · exact hc.operators t ht
  invitations t ht := by
    rw [Attached, find?_sessions_dropSession] at ht
    split at ht
    · cases ht
    · exact hc.invitations t ht

theorem isGlobalOperator_grantOperator_of_ne {call call' : Text}
    (hne : Callsigns.normalize call' ≠ Callsigns.normalize call) (channel : Int32) (grant : Bool) :
    (h.grantOperator call channel grant).isGlobalOperator call' = h.isGlobalOperator call' := by
  have happly : (h.grantOperator call channel grant).isGlobalOperator call' =
      (h.applyOperator call channel grant).isGlobalOperator call' := by
    rw [Hub.grantOperator, refreshSessionOpFlags, foldl_refreshSession]
    rfl
  rw [happly, applyOperator]
  split
  · rcases grant with _ | _
    · simp [isGlobalOperator, hne]
    · simp [isGlobalOperator, hne]
  · repeat' split
    all_goals rfl

theorem invitesFor_grantOperator (call : Text) (channel : Int32) (grant : Bool) (call' : Text) :
    (h.grantOperator call channel grant).invitesFor call' = h.invitesFor call' := by
  rw [Hub.grantOperator, refreshSessionOpFlags, foldl_refreshSession, applyOperator]
  repeat' split
  all_goals rfl

/-- A grant reaches the flags of its callsign. -/
theorem Cached.grantOperator (hc : h.Cached) (call : Text) (channel : Int32) (grant : Bool) :
    (h.grantOperator call channel grant).Cached where
  operators s hs hop := by
    obtain ⟨t, ht, rfl⟩ := hs.of_grantOperator
    dsimp only at hop ⊢
    by_cases hcall : Callsigns.equal t.callsign call = true
    · rw [if_pos hcall, opOn, hop, Bool.true_or]
    · have hne : Callsigns.normalize t.callsign ≠ Callsigns.normalize call := fun heq =>
        hcall (decide_eq_true heq)
      rw [isGlobalOperator_grantOperator_of_ne hne] at hop
      rw [if_neg hcall]
      exact hc.operators t ht hop
  invitations s hs := by
    obtain ⟨t, ht, rfl⟩ := hs.of_grantOperator
    rw [invitesFor_grantOperator]
    exact hc.invitations t ht

/-- An invitation is shown to the sessions of its callsign. -/
theorem Cached.recordInvite (hc : h.Cached) (user : Text) (channel : Int32) :
    (h.recordInvite user channel).Cached where
  operators s hs hop := by
    obtain ⟨t, ht, rfl⟩ := hs.of_recordInvite
    rw [recordInvite_eq] at hop
    exact hc.operators t ht hop
  invitations s hs := by
    obtain ⟨t, ht, rfl⟩ := hs.of_recordInvite
    dsimp only
    split
    · rfl
    · rename_i hcall
      have hne : Callsigns.normalize user ≠ Callsigns.normalize t.callsign := fun heq =>
        hcall (decide_eq_true heq.symm)
      rw [hc.invitations t ht]
      ext c
      rw [mem_invitesFor_recordInvite]
      simp [hne]

/-- **One step keeps what the sessions are shown exact.** A session carries a copy of its
invitations and of its flag, which every handler has to renew. -/
theorem Cached.step (hc : h.Cached) (now : DateTimeOffset) (e : ConversEvent) :
    (step h (now, e)).Cached := by
  cases rosterStep h now e with
  | quiet hroster => exact hc.of_roster hroster
  | joined hadm hroster => exact Cached.of_roster (hc.storeSession id rfl) hroster
  | @switched s channel hs hall hroster =>
    refine Cached.of_roster (hc.storeSession (s := switchedSession now h s channel)
      (fun hop => ?_) (hc.invitations s hs)) hroster
    exact Bool.or_eq_true_iff.mpr (Or.inl hop)
  | retold s s' hs hretold hroster =>
    obtain ⟨personal, away, rfl⟩ := hretold
    refine Cached.of_roster ?_ hroster
    exact hc.storeSession (hc.operators s hs) (hc.invitations s hs)
  | left hs hroster => exact Cached.of_roster (hc.dropSession _) hroster
  | authenticated hs hroster => exact Cached.of_roster (hc.grantOperator _ _ _) hroster
  | invited hs hroster => exact Cached.of_roster (hc.recordInvite _ _) hroster
  | hostInvited hvalid hroster => exact Cached.of_roster (hc.recordInvite _ _) hroster
  | appeared entry hlists hkey hremote hchannel hflag hroster =>
    exact Cached.of_roster (hc.withUsers _) hroster
  | vanished k hremote hroster => exact Cached.of_roster (hc.withUsers _) hroster
  | described u u' hu hkey hchannel hflag hroster =>
    exact Cached.of_roster (hc.withUsers _) hroster
  | granted hvalid hnone hroster => exact Cached.of_roster (hc.grantOperator _ _ _) hroster
  | flagged u hvalid hu hroster =>
    exact Cached.of_roster ((hc.grantOperator _ _ _).withUsers _) hroster

end Step

/-! ### The two gates -/

/-- **In every run what the sessions are shown is exact.** A gate that looks at a session therefore
sees what one that looks at the tables sees. -/
theorem cached_final {hostName : Text} {store : Option ConversStore} {start : Hub}
    (hnew : new hostName store = .ok start) (inputs : List Input) :
    (Run.final step start inputs).Cached := by
  have hnone := not_attached_of_new hnew
  have hstart : start.Cached :=
    ⟨fun s hs => absurd hs (hnone s), fun s hs => absurd hs (hnone s)⟩
  exact (Run.invariant hstart inputs fun p _ hc => hc.step p.2.1 p.2.2).2

/-- A session is on a channel after an event. -/
def LandsOn (h : Hub) (now : DateTimeOffset) (e : ConversEvent) (id : Text) (channel : Int32) :
    Prop :=
  ∃ s, (step h (now, e)).Attached s ∧ s.id = id ∧ s.channel = channel

section Gates

variable {h : Hub} (now : DateTimeOffset)

theorem mem_invitesFor_iff {call : Text} {channel : Int32} :
    channel ∈ h.invitesFor call ↔ h.isInvitedTo call channel = true := by
  rw [invitesFor, isInvitedTo]
  rcases h.invites.get? (Callsigns.normalize call) with _ | channels
  · simp
  · simp

/-- A join under a new id puts its session on the channel when the channel admits it. -/
theorem landsOn_localJoin_iff {id : Text} (hid : h.sessions.find? id = none) (callsign : Text)
    (channel : Int32) :
    h.LandsOn now (.localJoin id callsign channel) id channel ↔
      h.admits channel (Callsigns.normalize callsign) = true := by
  constructor
  · rintro ⟨s, hs, hsid, -⟩
    by_contra hadm
    rw [step, advance, Attached, (localJoin_of_not_admits now id (Bool.eq_false_iff.mpr hadm)).1,
      hsid, hid] at hs
    cases hs
  · intro hadm
    refine ⟨joinedSession now h id callsign channel, ?_, rfl, rfl⟩
    rw [step, advance, localJoin_of_admits now id hadm, Attached, find?_sessions_storeSession,
      if_pos rfl]

/-- A switch puts its session on another channel when the session may move there. -/
theorem landsOn_localSwitchChannel_iff {s : LocalSession} (hs : h.Attached s) {channel : Int32}
    (hother : s.channel ≠ channel) :
    h.LandsOn now (.localSwitchChannel s.id channel) s.id channel ↔ h.allows channel s = true := by
  constructor
  · rintro ⟨t, ht, htid, htchannel⟩
    by_contra hall
    rw [step, advance, Attached, (localSwitchChannel_of_not_allows now hs
      (Bool.eq_false_iff.mpr hall)).1, htid, (hs : h.sessions.find? s.id = some s)] at ht
    cases ht
    exact hother htchannel
  · intro hall
    refine ⟨switchedSession now h s channel, ?_, rfl, rfl⟩
    rw [step, advance, localSwitchChannel_of_allows now hs hall, Attached,
      find?_sessions_storeSession, if_pos rfl]

end Gates

/-- **The gates agree, but for the operators of the channel that is left**: in every state a run
reaches, and for every session and every valid channel it is not on, the switch is admitted
exactly when a join is, unless the channel is by invitation and the session has the flag without
being invited or an operator everywhere. -/
theorem gates_agree_iff {hostName : Text} {store : Option ConversStore} {start : Hub}
    (hnew : new hostName store = .ok start) (inputs : List Input) (now : DateTimeOffset)
    {s : LocalSession} (hs : (Run.final step start inputs).Attached s) {channel : Int32}
    (hvalid : ChannelNumber.isValid channel = true) (hother : s.channel ≠ channel) {id : Text}
    (hid : (Run.final step start inputs).sessions.find? id = none) :
    ((Run.final step start inputs).LandsOn now (.localSwitchChannel s.id channel) s.id channel ↔
        (Run.final step start inputs).LandsOn now (.localJoin id s.callsign channel) id channel) ↔
      ¬(ChannelModes.requiresInvite ((Run.final step start inputs).modesOf channel) = true ∧
        s.isOperator = true ∧
        (Run.final step start inputs).isGlobalOperator s.callsign = false ∧
        (Run.final step start inputs).isInvitedTo s.callsign channel = false) := by
  have hc := cached_final hnew inputs
  have hcanon : Callsigns.normalize s.callsign = s.callsign := (vouched_final hnew inputs).2 s hs
  generalize Run.final step start inputs = h at hs hid hc ⊢
  rw [landsOn_localSwitchChannel_iff now hs hother, landsOn_localJoin_iff now hid, hcanon]
  have hop := hc.operators s hs
  have hinvited : channel ∈ s.invitedChannels ↔ h.isInvitedTo s.callsign channel = true := by
    rw [hc.invitations s hs, mem_invitesFor_iff]
  simp only [allows, admits, hvalid, hother, Bool.true_and, ne_eq, decide_not, decide_false,
    Bool.not_false, Bool.or_eq_true, decide_eq_true_eq, hinvited, Bool.not_eq_true']
  rcases ChannelModes.requiresInvite (h.modesOf channel) with _ | _
  · simp
  · rcases hglobal : h.isGlobalOperator s.callsign with _ | _
    · rcases h.isInvitedTo s.callsign channel with _ | _
      · simp
      · simp
    · simp [hop hglobal]

/-- Channel 9 is by invitation, and a session of channel 7 is invited to it. -/
def exampleInvitee : List Input :=
  [(⟨0, zero_ticks_le⟩, .hostMode 9 "+i".toList),
    (⟨0, zero_ticks_le⟩, .localJoin "web-1".toList "m0abc".toList 7),
    (⟨0, zero_ticks_le⟩, .hostInvite "GB7ABC".toList "m0abc".toList 9)]

/-- It may go there by either gate. -/
theorem gates_agree_exampleInvitee :
    ChannelModes.requiresInvite
        ((Run.final step (fresh "NODE".toList) exampleInvitee).modesOf 9) = true ∧
      ∃ s, (Run.final step (fresh "NODE".toList) exampleInvitee).Attached s ∧
        ((Run.final step (fresh "NODE".toList) exampleInvitee).LandsOn ⟨0, zero_ticks_le⟩
            (.localSwitchChannel s.id 9) s.id 9 ↔
          (Run.final step (fresh "NODE".toList) exampleInvitee).LandsOn ⟨0, zero_ticks_le⟩
            (.localJoin "web-2".toList s.callsign 9) "web-2".toList 9) := by
  have hthere : ((Run.final step (fresh "NODE".toList) exampleInvitee).sessions.find?
      "web-1".toList).any (fun s => s.callsign = "M0ABC".toList ∧ s.channel = 7) = true := by
    decide +kernel
  obtain ⟨s, hs, hwho⟩ := (Option.any_eq_true _ _).mp hthere
  obtain ⟨hcall, hchannel⟩ := of_decide_eq_true hwho
  have hinvited : (Run.final step (fresh "NODE".toList) exampleInvitee).isInvitedTo
      "M0ABC".toList 9 = true := by
    decide +kernel
  refine ⟨by decide +kernel, s, attached_of_find? hs, (gates_agree_iff
    (@new_none "NODE".toList (by decide)) exampleInvitee ⟨0, zero_ticks_le⟩ (attached_of_find? hs)
    (by decide) (by rw [hchannel]; decide) (by decide +kernel)).mpr ?_⟩
  rintro ⟨-, -, -, hnot⟩
  rw [hcall, hinvited] at hnot
  cases hnot

/-- Channel 9 is by invitation, and a session is an operator of channel 7. -/
def exampleElsewhere : List Input := (⟨0, zero_ticks_le⟩, .hostMode 9 "+i".toList) :: exampleOffice

/-- The session of the run. -/
theorem exists_exampleElsewhere :
    ∃ s, (Run.final step (fresh "NODE".toList) exampleElsewhere).Attached s ∧
      s.id = "web-1".toList ∧ s.callsign = "M0ABC".toList ∧ s.channel = 7 ∧
        s.isOperator = true := by
  have hthere : ((Run.final step (fresh "NODE".toList) exampleElsewhere).sessions.find?
      "web-1".toList).any (fun s => s.id = "web-1".toList ∧ s.callsign = "M0ABC".toList ∧
        s.channel = 7 ∧ s.isOperator = true) = true := by
    decide +kernel
  obtain ⟨s, hs, hwho⟩ := (Option.any_eq_true _ _).mp hthere
  exact ⟨s, attached_of_find? hs, of_decide_eq_true hwho⟩

/-- **An operator of one channel switches to another by invitation**, where its callsign could not
join. The switch asks whether he is an operator where he comes from. -/
theorem not_gates_agree_exampleElsewhere :
    ¬ ∀ (hostName : Text) (store : Option ConversStore) (start : Hub),
      new hostName store = .ok start → ∀ (inputs : List Input) (now : DateTimeOffset)
        (s : LocalSession), (Run.final step start inputs).Attached s →
          ∀ channel, ChannelNumber.isValid channel = true → s.channel ≠ channel →
            ∀ id, (Run.final step start inputs).sessions.find? id = none →
              ((Run.final step start inputs).LandsOn now (.localSwitchChannel s.id channel) s.id
                  channel ↔
                (Run.final step start inputs).LandsOn now (.localJoin id s.callsign channel) id
                  channel) := by
  intro hall
  obtain ⟨s, hs, hid, hcall, hchannel, hflag⟩ := exists_exampleElsewhere
  have hagree := hall "NODE".toList none _ (@new_none "NODE".toList (by decide)) exampleElsewhere
    ⟨0, zero_ticks_le⟩ s hs 9 (by decide) (by rw [hchannel]; decide) "web-2".toList
    (by decide +kernel)
  rw [landsOn_localSwitchChannel_iff _ hs (by rw [hchannel]; decide),
    landsOn_localJoin_iff _ (by decide +kernel), hcall] at hagree
  have hallows : (Run.final step (fresh "NODE".toList) exampleElsewhere).allows 9 s = true := by
    have hvalid : ChannelNumber.isValid 9 = true := by decide
    simp [allows, hvalid, hchannel, hflag]
  have hadmits : (Run.final step (fresh "NODE".toList) exampleElsewhere).admits 9
      (Callsigns.normalize "M0ABC".toList) = false := by
    decide +kernel
  rw [hagree.mp hallows] at hadmits
  cases hadmits

end Hub

end Convers
