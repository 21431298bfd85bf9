import Convers.Core.HubAnswer
import Convers.Lib.Run

/-!
# Presence of a callsign

Sessions are attached by id, and the user table has one entry for a callsign however
many sessions it has. `Convers.Hub.Present` is what the table should say of the
sessions. A join and a switch keep it; a leave keeps it only when the session is the
last of its callsign (`Convers.Hub.LeavesLast`), since it drops the entry without
looking for another. So a run is right everywhere exactly when its leaves are of that
kind (`Convers.Hub.present_iff_leavesLast`).
-/

namespace Convers

namespace Hub

/-- An input to the hub: the moment and the event. -/
abbrev Input := DateTimeOffset × ConversEvent

/-- One step of the hub. -/
def step (h : Hub) (input : Input) : Hub := (h.advance input.1 input.2).hub

/-! ### The two tables -/

section Tables

variable (h : Hub) (s : LocalSession)

@[simp] theorem hostName_storeSession : (h.storeSession s).hostName = h.hostName := rfl

@[simp] theorem hostName_dropSession : (h.dropSession s).hostName = h.hostName := rfl

theorem find?_sessions_storeSession (id : Text) :
    (h.storeSession s).sessions.find? id = if id = s.id then some s else h.sessions.find? id :=
  h.sessions.find?_put s id

theorem find?_users_storeSession (k : Text × Text) :
    (h.storeSession s).users.find? k =
      if k = (s.callsign, h.hostName) then some (h.localUser s) else h.users.find? k :=
  h.users.find?_put (h.localUser s) k

theorem find?_sessions_dropSession (id : Text) :
    (h.dropSession s).sessions.find? id = if id = s.id then none else h.sessions.find? id :=
  h.sessions.find?_remove s.id id

theorem find?_users_dropSession (k : Text × Text) :
    (h.dropSession s).users.find? k =
      if k = (s.callsign, h.hostName) then none else h.users.find? k :=
  h.users.find?_remove (s.callsign, h.hostName) k

end Tables

/-! ### What the table says of the sessions -/

/-- A session is attached. -/
def Attached (h : Hub) (s : LocalSession) : Prop := h.sessions.find? s.id = some s

/-- What the user table should say of the sessions of a callsign. -/
structure PresentAt (h : Hub) (call : Text) : Prop where
  /-- The callsign has an entry iff it has a session. -/
  listed : (∃ u, h.users.find? (call, h.hostName) = some u) ↔ ∃ s, h.Attached s ∧ s.callsign = call
  /-- The entry is on the channel of one of its sessions. -/
  channel : ∀ u, h.users.find? (call, h.hostName) = some u →
    ∃ s, h.Attached s ∧ s.callsign = call ∧ u.channel = s.channel

/-- **What the user table should say of the sessions.** -/
def Present (h : Hub) : Prop := ∀ call, h.PresentAt call

/-- A sign-off is sent only for the last session of its callsign, on its leave. -/
def SignsOffLast (now : DateTimeOffset) (h : Hub) (e : ConversEvent) : Prop :=
  ∀ user host timestamp source personal,
    .sendUser user host timestamp source (-1) personal ∈ (h.advance now e).actions →
      ∃ s reason, e = .localLeave s.id reason ∧ h.Attached s ∧ s.callsign = user ∧
        ∀ t, h.Attached t → t.callsign = user → t = s

/-- A session that leaves is the last of its callsign. -/
def LeavesLast (h : Hub) (e : ConversEvent) : Prop :=
  ∀ s reason, e = .localLeave s.id reason → h.Attached s →
    ∀ t, h.Attached t → t.callsign = s.callsign → t = s

/-- The events that attach, move and detach a session; an id is not used twice at a
time. -/
def IsPresence (h : Hub) : ConversEvent → Prop
  | .localJoin sessionId _ _ => h.sessions.find? sessionId = none
  | .localSwitchChannel .. | .localLeave .. => True
  | _ => False

/-- A callsign whose sessions and entry stay is as right as it was. -/
theorem PresentAt.of_same {h h' : Hub} {call : Text} (hp : h.PresentAt call)
    (hhost : h'.hostName = h.hostName)
    (hsessions : ∀ s, s.callsign = call → (h'.Attached s ↔ h.Attached s))
    (hentry : h'.users.find? (call, h.hostName) = h.users.find? (call, h.hostName)) :
    h'.PresentAt call := by
  constructor
  · rw [hhost, hentry, hp.listed]
    exact exists_congr fun s => and_congr_left fun hs => (hsessions s hs).symm
  · intro u hu
    rw [hhost, hentry] at hu
    obtain ⟨s, hs, hcall, hchannel⟩ := hp.channel u hu
    exact ⟨s, (hsessions s hcall).mpr hs, hcall, hchannel⟩

/-- **Storing a session keeps the table right**, if it is new or keeps its callsign. Joins and
switches come down to it. -/
theorem Present.storeSession {h : Hub} (hp : h.Present) {s : LocalSession}
    (hs : ∀ t, h.sessions.find? s.id = some t → t.callsign = s.callsign) :
    (h.storeSession s).Present := by
  intro call
  by_cases hcall : call = s.callsign
  · subst hcall
    have hself : (h.storeSession s).Attached s := by
      rw [Attached, find?_sessions_storeSession, if_pos rfl]
    have hentry : (h.storeSession s).users.find? (s.callsign, h.hostName) =
        some (h.localUser s) := by
      rw [find?_users_storeSession, if_pos rfl]
    refine ⟨iff_of_true ⟨_, hentry⟩ ⟨s, hself, rfl⟩, fun u hu => ⟨s, hself, rfl, ?_⟩⟩
    rw [hostName_storeSession, hentry] at hu
    cases hu
    rfl
  · refine (hp call).of_same rfl ?_ ?_
    · rintro t rfl
      rw [Attached, Attached, find?_sessions_storeSession]
      split
      · rename_i hid
        refine iff_of_false ?_ fun ht => hcall (hs t (hid ▸ ht))
        rintro ⟨⟩
        exact hcall rfl
      · rfl
    · rw [find?_users_storeSession, if_neg (by simpa using hcall)]

/-- **Dropping the last session of a callsign keeps the table right.** The entry goes with the
session, and nobody is left who would miss it. -/
theorem Present.dropSession {h : Hub} (hp : h.Present) {s : LocalSession} (hs : h.Attached s)
    (hlast : ∀ t, h.Attached t → t.callsign = s.callsign → t = s) :
    (h.dropSession s).Present := by
  intro call
  by_cases hcall : call = s.callsign
  · subst hcall
    have hentry : (h.dropSession s).users.find? (s.callsign, h.hostName) = none := by
      rw [find?_users_dropSession, if_pos rfl]
    constructor
    · rw [hostName_dropSession, hentry]
      refine iff_of_false (by simp) ?_
      rintro ⟨t, ht, hcallsign⟩
      rw [Attached, find?_sessions_dropSession] at ht
      split at ht
      · cases ht
      · rename_i hid
        exact hid (congrArg LocalSession.id (hlast t ht hcallsign))
    · intro u hu
      rw [hostName_dropSession, hentry] at hu
      cases hu
  · refine (hp call).of_same rfl ?_ ?_
    · rintro t rfl
      rw [Attached, Attached, find?_sessions_dropSession]
      split
      · rename_i hid
        refine iff_of_false (by simp) fun ht => hcall ?_
        rw [hid, hs] at ht
        cases ht
        rfl
      · rfl
    · rw [find?_users_dropSession, if_neg (by simpa using hcall)]

/-- **One step keeps the table right**, unless it is a leave with sessions left. The leave is the
only event that asks for a condition. -/
theorem Present.step {h : Hub} (hp : h.Present) {input : Input} (he : h.IsPresence input.2)
    (hlast : h.LeavesLast input.2) : (step h input).Present := by
  obtain ⟨now, e⟩ := input
  cases e with
  | localJoin sessionId callsign channel =>
    rcases hadm : h.admits channel (Callsigns.normalize callsign) with _ | _
    · rw [Hub.step, advance, (localJoin_of_not_admits now sessionId hadm).1]
      exact hp
    · rw [Hub.step, advance, localJoin_of_admits now sessionId hadm]
      refine hp.storeSession fun t ht => ?_
      rw [joinedSession] at ht
      rw [show h.sessions.find? sessionId = none from he] at ht
      cases ht
  | localSwitchChannel sessionId channel =>
    rcases hs : h.sessions.find? sessionId with _ | s
    · simp only [Hub.step, advance, localSwitchChannel, hs]
      exact hp
    · obtain rfl : s.id = sessionId := Table.key_of_find? hs
      rcases hall : h.allows channel s with _ | _
      · rw [Hub.step, advance, (localSwitchChannel_of_not_allows now hs hall).1]
        exact hp
      · rw [Hub.step, advance, localSwitchChannel_of_allows now hs hall]
        refine hp.storeSession fun t ht => ?_
        rw [switchedSession, hs] at ht
        cases ht
        rfl
  | localLeave sessionId reason =>
    rcases hs : h.sessions.find? sessionId with _ | s
    · simp only [Hub.step, advance, localLeave, hs]
      exact hp
    · obtain rfl : s.id = sessionId := Table.key_of_find? hs
      rw [Hub.step, advance, localLeave_of_find? now reason hs]
      exact hp.dropSession hs (hlast s reason rfl hs)
  | _ => cases he

/-- A hub starts without users and without sessions. -/
theorem present_of_new {hostName : Text} {store : Option ConversStore} {h : Hub}
    (hnew : new hostName store = .ok h) : h.Present := by
  unfold new at hnew
  split at hnew
  · cases hnew
  · cases hnew
    refine fun call => ⟨iff_of_false (by simp) ?_, fun u hu => ?_⟩
    · rintro ⟨s, hs, -⟩
      cases hs
    · cases hu

/-- **The sign-off of a step is the last one's iff the step leaves last.** So what other hosts are
told can go wrong at a leave only, and at the same ones as the table. -/
theorem signsOffLast_iff (now : DateTimeOffset) {h : Hub} {e : ConversEvent}
    (he : h.IsPresence e) : SignsOffLast now h e ↔ h.LeavesLast e := by
  constructor
  · rintro hsigns s reason rfl hs
    obtain ⟨s', reason', heq, hs', -, hlast⟩ := hsigns s.callsign h.hostName now s.channel reason
      (by rw [advance, localLeave_of_find? now reason hs]; exact List.mem_cons_self)
    have hid : s.id = s'.id := (ConversEvent.localLeave.inj heq).1
    have hsame : s' = s := by
      rw [Attached, ← hid, hs] at hs'
      cases hs'
      rfl
    intro t ht hcall
    rw [hlast t ht hcall, hsame]
  · rintro hlast user host timestamp source personal hmem
    have hlocal : e.isLocal = true := by
      cases e <;> first | rfl | cases he
    obtain ⟨hann, hsend⟩ := announcement_of_mem hlocal hmem rfl
    -- a join or a switch goes to a valid channel, and -1 is none
    have hvalid : ChannelNumber.isValid (-1) = false := by decide
    cases e with
    | localJoin sessionId callsign channel =>
      cases hsend
      simp [announces, admits, hvalid] at hann
    | localSwitchChannel sessionId channel =>
      simp only [announcement] at hsend
      obtain ⟨s, hs, heq⟩ := Option.map_eq_some_iff.mp hsend
      cases heq
      simp [announces, hs, allows, hvalid] at hann
    | localLeave sessionId reason =>
      simp only [announcement] at hsend
      obtain ⟨s, hs, heq⟩ := Option.map_eq_some_iff.mp hsend
      cases heq
      obtain rfl : s.id = sessionId := Table.key_of_find? hs
      exact ⟨s, _, rfl, hs, rfl, hlast s _ rfl hs⟩
    | _ => cases he

/-- **A run of joins, switches and leaves is right in every state and every sign-off iff every leave
in it is that of the last session of a callsign.** So the other leaves are where the table stops
following the sessions, and nothing else is. -/
theorem present_iff_leavesLast {hostName : Text} {store : Option ConversStore} {start : Hub}
    (hnew : new hostName store = .ok start) (inputs : List Input)
    (hpresence : ∀ p ∈ Run.trace step start inputs, p.1.IsPresence p.2.2) :
    ((∀ p ∈ Run.trace step start inputs, p.1.Present ∧ SignsOffLast p.2.1 p.1 p.2.2) ∧
        (Run.final step start inputs).Present) ↔
      ∀ p ∈ Run.trace step start inputs, p.1.LeavesLast p.2.2 := by
  constructor
  · rintro ⟨hall, -⟩ p hp
    exact (signsOffLast_iff p.2.1 (hpresence p hp)).mp (hall p hp).2
  · intro hlast
    obtain ⟨hall, hfinal⟩ := Run.invariant (present_of_new hnew) inputs fun p hp hpresent =>
      hpresent.step (hpresence p hp) (hlast p hp)
    exact ⟨fun p hp => ⟨hall p hp, (signsOffLast_iff p.2.1 (hpresence p hp)).mpr (hlast p hp)⟩,
      hfinal⟩

/-- A session is the last of its callsign if no other session is of it. -/
theorem leavesLast_of_records {h : Hub} {id : Text} (reason : Text)
    (hlast : h.sessions.records.all (fun s => h.sessions.records.all fun t =>
      s.id = id → t.callsign = s.callsign → t = s) = true) :
    h.LeavesLast (.localLeave id reason) := by
  rintro s r heq hs t ht hcall
  have hid : s.id = id := by
    cases heq
    rfl
  simp only [List.all_eq_true, decide_eq_true_eq] at hlast
  exact hlast s (Table.mem_of_find? hs) t (Table.mem_of_find? ht) hid hcall

/-- A moment for the examples. -/
def exampleMoment : DateTimeOffset := ⟨638000000000000000, by omega⟩

/-- Two users join, one of them over radio and over the web; that one moves over the web, and the
other leaves. -/
def exampleVisit : List Input :=
  [(exampleMoment, .localJoin "rf-1".toList "m0abc".toList 7),
    (exampleMoment, .localJoin "rf-2".toList "g4xyz".toList 7),
    (exampleMoment, .localJoin "web-M0ABC".toList "m0abc".toList 8),
    (exampleMoment, .localSwitchChannel "web-M0ABC".toList 9),
    (exampleMoment, .localLeave "rf-2".toList "bye".toList)]

/-- The user with two sessions has one entry, and only the sign-off of the other is sent. -/
theorem present_exampleVisit :
    (∀ p ∈ Run.trace step (fresh "NODE".toList) exampleVisit,
        p.1.Present ∧ SignsOffLast p.2.1 p.1 p.2.2) ∧
      (Run.final step (fresh "NODE".toList) exampleVisit).Present := by
  refine (present_iff_leavesLast (new_none rfl) exampleVisit ?_).mpr ?_
  · intro p hp
    simp only [exampleVisit, Run.trace_cons, Run.trace_nil, List.mem_cons, List.not_mem_nil,
      or_false] at hp
    rcases hp with rfl | rfl | rfl | rfl | rfl
    · exact (rfl : (fresh "NODE".toList).sessions.find? "rf-1".toList = none)
    · have hnew : (Run.final step (fresh "NODE".toList) (exampleVisit.take 1)).sessions.find?
          "rf-2".toList = none := by
        decide +kernel
      exact hnew
    · have hnew : (Run.final step (fresh "NODE".toList) (exampleVisit.take 2)).sessions.find?
          "web-M0ABC".toList = none := by
        decide +kernel
      exact hnew
    · exact trivial
    · exact trivial
  · intro p hp
    simp only [exampleVisit, Run.trace_cons, Run.trace_nil, List.mem_cons, List.not_mem_nil,
      or_false] at hp
    rcases hp with rfl | rfl | rfl | rfl | rfl
    · rintro s reason ⟨⟩
    · rintro s reason ⟨⟩
    · rintro s reason ⟨⟩
    · rintro s reason ⟨⟩
    · exact leavesLast_of_records _ (by decide +kernel)

/-- A user who is attached twice, over radio and over the web, drops the radio. -/
def exampleTwice : List Input :=
  [(exampleMoment, .localJoin "rf-1".toList "m0abc".toList 7),
    (exampleMoment, .localJoin "web-M0ABC".toList "m0abc".toList 8),
    (exampleMoment, .localLeave "rf-1".toList "bye".toList)]

/-- **A callsign that drops one of two sessions is gone**: the table has no entry for
it, while its session over the web is attached. -/
theorem not_present_exampleTwice :
    (∀ p ∈ Run.trace step (fresh "NODE".toList) exampleTwice, p.1.IsPresence p.2.2) ∧
      ¬(Run.final step (fresh "NODE".toList) exampleTwice).Present := by
  constructor
  · intro p hp
    simp only [exampleTwice, Run.trace_cons, Run.trace_nil, List.mem_cons, List.not_mem_nil,
      or_false] at hp
    rcases hp with rfl | rfl | rfl
    · exact (rfl : (fresh "NODE".toList).sessions.find? "rf-1".toList = none)
    · have hnew : (step (fresh "NODE".toList)
          (exampleMoment, .localJoin "rf-1".toList "m0abc".toList 7)).sessions.find?
            "web-M0ABC".toList = none := by
        decide +kernel
      exact hnew
    · exact trivial
  · intro hpresent
    obtain ⟨s, hs, hcall⟩ : ∃ s, (Run.final step (fresh "NODE".toList) exampleTwice).sessions.find?
        "web-M0ABC".toList = some s ∧ s.callsign = "M0ABC".toList := by
      refine ⟨_, rfl, ?_⟩
      decide +kernel
    have hattached : (Run.final step (fresh "NODE".toList) exampleTwice).Attached s := by
      rw [Attached, (Table.key_of_find? hs : s.id = "web-M0ABC".toList)]
      exact hs
    obtain ⟨u, hu⟩ := (hpresent "M0ABC".toList).listed.mpr ⟨s, hattached, hcall⟩
    have hnone : (Run.final step (fresh "NODE".toList) exampleTwice).users.find?
        ("M0ABC".toList, (Run.final step (fresh "NODE".toList) exampleTwice).hostName) = none := by
      decide +kernel
    rw [hnone] at hu
    cases hu

end Hub

end Convers
