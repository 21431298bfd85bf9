import Convers.Core.Entries

/-!
# Who is here

Only a join attaches a session and only a leave detaches one: `Convers.ConversEvent.tenure` is the
session of such an event, and no other event changes who is behind an id
(`Convers.Hub.callOf_step`). A join may be refused, so what is known of a session from the events
alone is whether it may be here (`Convers.ConversEvent.settles`).

An entry of this host in the user table goes with the sessions of its callsign: where there is one
there is a session (`Convers.Hub.Listed`), as long as no join takes an id over from another
callsign.
-/

namespace Convers

namespace ConversEvent

/-- The session an event attaches or detaches. -/
def tenure : ConversEvent → Option Text
  | .localJoin sessionId .. | .localLeave sessionId _ => some sessionId
  | _ => none

/-- Whether a session may be here after an event. -/
def settles (id : Text) (here : Bool) : ConversEvent → Bool
  | .localJoin sessionId .. => here || sessionId = id
  | .localLeave sessionId _ => here && sessionId ≠ id
  | _ => here

variable {e : ConversEvent} {id : Text}

/-- The others do not matter. -/
theorem settles_of_ne (he : e.tenure ≠ some id) (here : Bool) : e.settles id here = here := by
  cases e with
  | localJoin sessionId | localLeave sessionId =>
    have hne : sessionId ≠ id := fun heq => he (congrArg some heq)
    simp [settles, hne]
  | _ => rfl

/-- What may be here if nobody is, may be here if somebody is. -/
theorem settles_mono {here here' : Bool} (h : here ≤ here') :
    e.settles id here ≤ e.settles id here' := by
  rcases here with _ | _
  · rcases here' with _ | _
    · exact le_rfl
    · cases e with
      | localLeave sessionId => exact Bool.false_le _
      | localJoin | _ => exact Bool.le_true _
  · rw [Bool.eq_true_of_true_le h]

end ConversEvent

namespace Hub

variable {h : Hub} {now : DateTimeOffset} {e : ConversEvent} {id : Text}

/-- Who is behind an id. -/
def callOf (h : Hub) (id : Text) : Option Text := (h.sessions.find? id).map LocalSession.callsign

/-- Whether a session is here. -/
def isHere (h : Hub) (id : Text) : Bool := (h.sessions.find? id).isSome

theorem isSome_callOf (h : Hub) (id : Text) : (h.callOf id).isSome = h.isHere id :=
  Option.isSome_map

theorem callOf_of_roster {h' : Hub} (hroster : h'.roster = h.roster) :
    h'.callOf id = h.callOf id := by
  rw [callOf, callOf, sessions_of_roster hroster]

/-- A session that is stored in its own place. -/
theorem callOf_storeSession {s t : LocalSession} (hs : h.Attached s) (hid : t.id = s.id)
    (hcall : t.callsign = s.callsign) : (h.storeSession t).callOf id = h.callOf id := by
  rw [callOf, find?_sessions_storeSession, callOf]
  split
  · rename_i heq
    rw [heq, hid, (hs : h.sessions.find? s.id = some s), Option.map_some, Option.map_some, hcall]
  · rfl

theorem callOf_grantOperator (call : Text) (channel : Int32) (grant : Bool) :
    (h.grantOperator call channel grant).callOf id = h.callOf id := by
  rw [callOf, grantOperator, find?_sessions_refresh, sessions_applyOperator, Option.map_map, callOf]
  refine congrFun (congrArg Option.map (funext fun s => ?_)) _
  dsimp only [Function.comp_apply]
  split
  · rfl
  · rfl

theorem callOf_recordInvite (call : Text) (channel : Int32) :
    (h.recordInvite call channel).callOf id = h.callOf id := by
  rw [callOf, find?_sessions_recordInvite, Option.map_map, callOf]
  refine congrFun (congrArg Option.map (funext fun s => ?_)) _
  dsimp only [Function.comp_apply]
  split
  · rfl
  · rfl

/-- **No other event changes who is behind an id.** An id so stands for one callsign between its
join and its leave. -/
theorem callOf_step (he : e.tenure ≠ some id) : (step h (now, e)).callOf id = h.callOf id := by
  cases rosterStep h now e with
  | quiet hroster => exact callOf_of_roster hroster
  | @joined sessionId callsign channel hadm hroster =>
    have hne : id ≠ sessionId := fun heq => he (congrArg some heq.symm)
    rw [callOf_of_roster hroster, callOf, find?_sessions_storeSession]
    rw [if_neg (show id ≠ (joinedSession now h sessionId callsign channel).id from hne), callOf]
  | switched hs hall hroster =>
    rw [callOf_of_roster hroster]
    exact callOf_storeSession hs rfl rfl
  | retold s s' hs hretold hroster =>
    obtain ⟨personal, away, rfl⟩ := hretold
    rw [callOf_of_roster hroster]
    exact callOf_storeSession hs rfl rfl
  | @left s reason hs hroster =>
    have hne : id ≠ s.id := fun heq => he (congrArg some heq.symm)
    rw [callOf_of_roster hroster, callOf, find?_sessions_dropSession, if_neg hne, callOf]
  | authenticated hs hroster => rw [callOf_of_roster hroster, callOf_grantOperator]
  | invited hs hroster => rw [callOf_of_roster hroster, callOf_recordInvite]
  | hostInvited hvalid hroster => rw [callOf_of_roster hroster, callOf_recordInvite]
  | appeared entry hlists hkey hremote hchannel hflag hroster =>
    rw [callOf_of_roster hroster]
    rfl
  | vanished k hremote hroster =>
    rw [callOf_of_roster hroster]
    rfl
  | described u u' hu hkey hchannel hflag hroster =>
    rw [callOf_of_roster hroster]
    rfl
  | granted hvalid hnone hroster => rw [callOf_of_roster hroster, callOf_grantOperator]
  | flagged u hvalid hu hroster =>
    rw [callOf_of_roster hroster]
    exact callOf_grantOperator _ _ _

/-- **A join that is let in puts its callsign behind the id.** A join under an id in use takes it
over, if it is let in. -/
theorem callOf_localJoin (callsign : Text) (channel : Int32) :
    (step h (now, .localJoin id callsign channel)).callOf id =
      if h.admits channel (Callsigns.normalize callsign) then some (Callsigns.normalize callsign)
      else h.callOf id := by
  rw [step, advance]
  split
  · rename_i hadm
    rw [localJoin_of_admits now id hadm, callOf, find?_sessions_storeSession]
    rw [if_pos (show id = (joinedSession now h id callsign channel).id from rfl)]
    rfl
  · rename_i hadm
    rw [(localJoin_of_not_admits now id (Bool.eq_false_iff.mpr hadm)).1]

/-- A leave takes its session, and no other. -/
theorem find?_localLeave (reason other : Text) :
    (step h (now, .localLeave id reason)).sessions.find? other =
      if other = id then none else h.sessions.find? other := by
  rw [step, advance]
  rcases hs : h.sessions.find? id with _ | s
  · simp only [localLeave, hs]
    split
    · rename_i heq
      rw [heq]
      exact hs
    · rfl
  · obtain rfl : s.id = id := Table.key_of_find? hs
    rw [localLeave_of_find? now reason hs, find?_sessions_dropSession]

/-- **A session is here after an event only if it may be.** The queue of a host is so an upper bound
on who will be here. -/
theorem isHere_step_le : (step h (now, e)).isHere id ≤ e.settles id (h.isHere id) := by
  by_cases he : e.tenure = some id
  · cases e with
    | localJoin sessionId callsign channel =>
      cases he
      simp [ConversEvent.settles]
    | localLeave sessionId reason =>
      cases he
      rw [isHere, find?_localLeave, if_pos rfl]
      exact Bool.false_le _
    | _ => cases he
  · rw [ConversEvent.settles_of_ne he, ← isSome_callOf, callOf_step he, isSome_callOf]

/-- **It is, if no join of it is refused.** Where no join is refused the queue tells exactly who
will be here. -/
theorem isHere_step_eq (hadm : ∀ callsign channel, e = .localJoin id callsign channel →
      h.admits channel (Callsigns.normalize callsign) = true ∨ h.isHere id = true) :
    (step h (now, e)).isHere id = e.settles id (h.isHere id) := by
  by_cases he : e.tenure = some id
  · cases e with
    | localJoin sessionId callsign channel =>
      cases he
      rw [ConversEvent.settles, ← isSome_callOf, callOf_localJoin]
      rcases hadm callsign channel rfl with htrue | htrue
      · simp [htrue]
      · rw [htrue]
        split
        · rfl
        · rw [isSome_callOf, htrue]
          rfl
    | localLeave sessionId reason =>
      cases he
      rw [isHere, find?_localLeave, if_pos rfl]
      simp [ConversEvent.settles]
    | _ => cases he
  · rw [ConversEvent.settles_of_ne he, ← isSome_callOf, callOf_step he, isSome_callOf]

/-! ### The entries of this host -/

/-- **Where there is an entry of this host there is a session of its callsign.** -/
def Listed (h : Hub) : Prop :=
  ∀ call u, h.users.find? (call, h.hostName) = some u → ∃ s, h.Attached s ∧ s.callsign = call

/-- What has to be shown of a change: its sessions are still those of the same callsigns, and its
entries of this host were there, or are of a session. -/
theorem Listed.congr (hl : h.Listed) {h' : Hub} (hhost : h'.hostName = h.hostName)
    (hsessions : ∀ s, h.Attached s → ∃ t, h'.Attached t ∧ t.callsign = s.callsign)
    (husers : ∀ call u, h'.users.find? (call, h.hostName) = some u →
      (∃ u', h.users.find? (call, h.hostName) = some u') ∨ ∃ s, h.Attached s ∧ s.callsign = call) :
    h'.Listed := by
  intro call u hu
  rw [hhost] at hu
  have hs : ∃ s, h.Attached s ∧ s.callsign = call := by
    rcases husers call u hu with ⟨u', hu'⟩ | hs
    · exact hl call u' hu'
    · exact hs
  obtain ⟨s, hs, rfl⟩ := hs
  exact hsessions s hs

theorem Listed.of_roster (hl : h.Listed) {h' : Hub} (hroster : h'.roster = h.roster) :
    h'.Listed := by
  refine hl.congr (hostName_of_roster hroster) (fun s hs => ⟨s, ?_, rfl⟩) fun call u hu => ?_
  · rwa [Attached, sessions_of_roster hroster]
  · rw [users_of_roster hroster] at hu
    exact Or.inl ⟨u, hu⟩

/-- A session is stored under an id that is free, or that is its callsign's. -/
theorem Listed.storeSession (hl : h.Listed) {s : LocalSession}
    (hs : ∀ call, h.callOf s.id = some call → call = s.callsign) : (h.storeSession s).Listed := by
  have hself : (h.storeSession s).Attached s := by
    rw [Attached, find?_sessions_storeSession, if_pos rfl]
  intro call u hu
  rw [hostName_storeSession, find?_users_storeSession] at hu
  split at hu
  · rename_i heq
    exact ⟨s, hself, (Prod.mk.inj heq).1.symm⟩
  · obtain ⟨t, ht, rfl⟩ := hl call u hu
    by_cases hid : t.id = s.id
    · refine ⟨s, hself, (hs t.callsign ?_).symm⟩
      rw [callOf, ← hid, (ht : h.sessions.find? t.id = some t), Option.map_some]
    · refine ⟨t, ?_, rfl⟩
      rw [Attached, find?_sessions_storeSession, if_neg hid]
      exact ht

theorem Listed.dropSession (hl : h.Listed) {s : LocalSession} (hs : h.Attached s) :
    (h.dropSession s).Listed := by
  intro call u hu
  rw [hostName_dropSession, find?_users_dropSession] at hu
  split at hu
  · cases hu
  · rename_i hne
    obtain ⟨t, ht, rfl⟩ := hl call u hu
    refine ⟨t, ?_, rfl⟩
    rw [Attached, find?_sessions_dropSession, if_neg]
    · exact ht
    · intro hid
      have heq : t = s := Option.some.inj (ht.symm.trans (hid ▸ hs))
      exact hne (by rw [heq])

theorem Listed.grantOperator (hl : h.Listed) (call : Text) (channel : Int32) (grant : Bool) :
    (h.grantOperator call channel grant).Listed := by
  refine hl.congr (hostName_grantOperator ..) (fun s hs => ?_) fun call' u hu => ?_
  · exact ⟨_, attached_grantOperator.mpr ⟨s, hs, rfl⟩, by split <;> rfl⟩
  · rcases entry_of_grantOperator hu with ⟨s, hs, flag, rfl⟩ | hu
    · have hkey : NetworkUser.key { h.localUser s with isOperator := flag } =
          (call', h.hostName) := Table.key_of_find? hu
      exact Or.inr ⟨s, hs, congrArg Prod.fst hkey⟩
    · exact Or.inl ⟨u, hu⟩

theorem Listed.recordInvite (hl : h.Listed) (call : Text) (channel : Int32) :
    (h.recordInvite call channel).Listed := by
  refine hl.congr (hostName_recordInvite ..) (fun s hs => ?_) fun call' u hu => ?_
  · have hfind := find?_sessions_recordInvite h call channel s.id
    rw [(hs : h.sessions.find? s.id = some s), Option.map_some] at hfind
    exact ⟨_, attached_of_find? hfind, by split <;> rfl⟩
  · rw [users_recordInvite] at hu
    exact Or.inl ⟨u, hu⟩

/-- An entry is put under a key that is another host's, or that is there. -/
theorem Listed.putUser (hl : h.Listed) {u : NetworkUser}
    (hu : h.Remote u.key ∨ (h.users.find? u.key).isSome = true) :
    { h with users := h.users.put u }.Listed := by
  refine hl.congr rfl (fun s hs => ⟨s, hs, rfl⟩) fun call v hv => ?_
  rw [Table.find?_put] at hv
  split at hv
  · rename_i heq
    rcases hu with hremote | hthere
    · exact absurd (congrArg Prod.snd heq).symm hremote
    · rw [← heq] at hthere
      exact Or.inl (Option.isSome_iff_exists.mp hthere)
  · exact Or.inl ⟨v, hv⟩

theorem Listed.removeUser (hl : h.Listed) (k : Text × Text) :
    { h with users := h.users.remove k }.Listed := by
  refine hl.congr rfl (fun s hs => ⟨s, hs, rfl⟩) fun call v hv => ?_
  rw [Table.find?_remove] at hv
  split at hv
  · cases hv
  · exact Or.inl ⟨v, hv⟩

/-- **One step keeps the entries of this host with the sessions**, if a join takes no id over. When
a session is gone its entry is gone, or another session of the callsign has it. -/
theorem Listed.step (hl : h.Listed)
    (hjoin : ∀ sessionId callsign channel, e = .localJoin sessionId callsign channel →
      ∀ call, h.callOf sessionId = some call → call = Callsigns.normalize callsign) :
    (step h (now, e)).Listed := by
  cases rosterStep h now e with
  | quiet hroster => exact hl.of_roster hroster
  | joined hadm hroster =>
    exact (hl.storeSession fun call hcall => hjoin _ _ _ rfl call hcall).of_roster hroster
  | @switched s channel hs hall hroster =>
    refine Listed.of_roster (hl.storeSession fun call hcall => ?_) hroster
    rw [callOf, switchedSession, (hs : h.sessions.find? s.id = some s)] at hcall
    exact (Option.some.inj hcall).symm
  | retold s s' hs hretold hroster =>
    obtain ⟨personal, away, rfl⟩ := hretold
    refine Listed.of_roster (hl.storeSession fun call hcall => ?_) hroster
    rw [callOf, (hs : h.sessions.find? s.id = some s)] at hcall
    exact (Option.some.inj hcall).symm
  | left hs hroster => exact (hl.dropSession hs).of_roster hroster
  | authenticated hs hroster => exact (hl.grantOperator _ _ _).of_roster hroster
  | invited hs hroster => exact (hl.recordInvite _ _).of_roster hroster
  | hostInvited hvalid hroster => exact (hl.recordInvite _ _).of_roster hroster
  | appeared entry hlists hkey hremote hchannel hflag hroster =>
    exact (hl.putUser (Or.inl hremote)).of_roster hroster
  | vanished k hremote hroster => exact (hl.removeUser k).of_roster hroster
  | described u u' hu hkey hchannel hflag hroster =>
    refine Listed.of_roster (hl.putUser (Or.inr ?_)) hroster
    rw [hkey, hu]
    rfl
  | granted hvalid hnone hroster => exact (hl.grantOperator _ _ _).of_roster hroster
  | @flagged user host channel grant u hvalid hu hroster =>
    refine Listed.of_roster ((hl.grantOperator _ _ _).putUser (Or.inr ?_)) hroster
    have hkey : u.key = (Callsigns.normalize user, Callsigns.normalize host) :=
      Table.key_of_find? hu
    rw [show (flagUser (h.grantOperator (Callsigns.normalize user) channel grant)
      (Callsigns.normalize user) u).key = u.key from rfl, hkey, hu]
    rfl

/-- A hub starts without any. -/
theorem listed_of_new {hostName : Text} {store : Option ConversStore}
    (hnew : new hostName store = .ok h) : h.Listed := by
  intro call u hu
  rw [users_of_new hnew] at hu
  cases hu

end Hub

end Convers
