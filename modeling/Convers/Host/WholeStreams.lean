import Convers.Host.ChildStream

/-!
# What the streams of the node lose

A handle lives once: it is registered once, and closed once by a close push. Where the
registration comes makes the difference.

| the registration comes | the data before the close | the end of the stream |
|---|---|---|
| before the close push | delivered | reported |
| in the middle of it | lost | reported |
| after it | lost | never reported |

So the connection delivers what was received before the close push, and then the end of the
stream, exactly when it is registered before that push or, in the middle of it, with nothing to
lose (`Convers.Attachment.delivers_iff`).
-/

namespace Convers

namespace Attachment

variable {s t : Attachment} {handle : ℤ} {events : List RhpEvent} {event : RhpEvent}

/-- **One life of a handle**: it is registered once and closed once, by a close push. -/
structure OneLife (handle : ℤ) (events : List RhpEvent) : Prop where
  registered : events.countP (·.registers handle) = 1
  closing : events.count (.closing handle) = 1
  closed : events.count (.closed handle) = 1
  kept : .closeChild handle ∉ events

/-- The data received before the close push. -/
def receivedBeforeClose (handle : ℤ) (events : List RhpEvent) : List UInt8 :=
  (receivedOn handle (events.takeWhile (· ≠ .closing handle))).flatten

/-- The answers of a stream: its bytes, then its end, as often as it is asked for. -/
def StreamOf (bytes : List UInt8) (answers : List (Option (List UInt8))) : Prop :=
  ∃ (chunks : List (List UInt8)) (n : ℕ),
    answers = chunks.map some ++ List.replicate (n + 1) none ∧ chunks.flatten = bytes

/-- **The stream is whole**: the connection of the handle, made since some moment, delivers the
data received before the close push, and then the end of the stream, to a reader that goes on
reading. -/
def Delivers (base : ℕ) (handle : ℤ) (events : List RhpEvent) (s : Attachment) : Prop :=
  ∃ id c, base ≤ id ∧ s.link.connections[id]? = some c ∧ c.handle = handle ∧
    StreamOf (receivedBeforeClose handle events) (answersTo id events ++ c.rest)

/-- **The condition under which it is whole**: the handle is registered before the close push,
or in the middle of it with nothing received. -/
def Timely (handle : ℤ) (events : List RhpEvent) : Prop :=
  (∃ event ∈ events.takeWhile (· ≠ .closing handle), event.registers handle = true) ∨
    (∃ event ∈ events.takeWhile (· ≠ .closed handle), event.registers handle = true) ∧
      receivedBeforeClose handle events = []

theorem streamOf_iff {bytes : List UInt8} {given inbound : List (List UInt8)} {n : ℕ}
    (hend : 0 < n → inbound = []) :
    StreamOf bytes (given.map some ++ List.replicate n none ++ (inbound.map some ++ [none])) ↔
      (given ++ inbound).flatten = bytes := by
  have hanswers : given.map some ++ List.replicate n none ++ (inbound.map some ++ [none]) =
      (given ++ inbound).map some ++ List.replicate (n + 1) none := by
    rcases Nat.eq_zero_or_pos n with rfl | hpos
    · simp
    · rw [hend hpos]
      simp [List.replicate_succ']
  rw [hanswers]
  constructor
  · rintro ⟨chunks, m, heq, rfl⟩
    have hchunks := congrArg (List.filterMap id) heq
    simp only [List.filterMap_append, List.filterMap_map, Function.comp_def, id,
      List.filterMap_some, List.filterMap_replicate] at hchunks
    simpa using congrArg List.flatten hchunks
  · intro h
    exact ⟨given ++ inbound, n, rfl, h⟩

/-- A stream that has not ended is not whole. -/
theorem not_streamOf {bytes : List UInt8} {chunks : List (List UInt8)} :
    ¬ StreamOf bytes (chunks.map some) := by
  rintro ⟨whole, n, heq, -⟩
  have hnone : (none : Option (List UInt8)) ∈ chunks.map some := by
    rw [heq]
    exact List.mem_append_right _ (by simp)
  simp at hnone

/-- **What is delivered is what was written**, if the stream has ended. An end that never comes
leaves the reader waiting, so it counts as well. -/
theorem delivers_iff_of_follows {base : ℕ} {written : List (List UInt8)} {ended : Bool}
    (hf : ChildStream.Follows base handle events t.link (.known written ended)) :
    Delivers base handle events t ↔
      ended = true ∧ written.flatten = receivedBeforeClose handle events := by
  obtain ⟨id, c, given, n, honly, -, hcompleted, hanswers, rfl, hend⟩ := hf
  have hone : Delivers base handle events t ↔
      StreamOf (receivedBeforeClose handle events) (answersTo id events ++ c.rest) := by
    constructor
    · rintro ⟨i, d, hi, hd, hh, hstream⟩
      obtain rfl := honly.only i d hi hd hh
      cases honly.connection.symm.trans hd
      exact hstream
    · exact fun hstream =>
        ⟨id, c, honly.since, honly.connection, honly.handle_eq, hstream⟩
  rw [hone, hanswers, RhpChildConnection.rest, hcompleted]
  cases ended
  · have hn : n = 0 := by
      by_contra hn
      cases (hend (Nat.pos_of_ne_zero hn)).1
    subst hn
    simp only [Bool.false_eq_true, if_false, List.append_nil, false_and, iff_false,
      List.replicate_zero, ← List.map_append]
    exact not_streamOf
  · rw [if_pos rfl, streamOf_iff fun hpos => (hend hpos).2]
    simp

/-- **The shape of a life**: what comes before the close push, what tasks and readers do in the
middle of it, and what comes after it. -/
structure Parts (handle : ℤ) (events before middle after : List RhpEvent) : Prop where
  eq_append : events = before ++ .closing handle :: (middle ++ .closed handle :: after)
  tasks : ∀ event ∈ middle, event.isPush = false
  closing_before : .closing handle ∉ before
  closing_after : .closing handle ∉ after
  closed_before : .closed handle ∉ before
  closed_after : .closed handle ∉ after
  one : before.countP (·.registers handle) + middle.countP (·.registers handle) +
    after.countP (·.registers handle) = 1

theorem OneLife.parts (hone : OneLife handle events) (hidle : s.closing = none)
    (hrun : s.run events = some t) :
    ∃ before middle after, Parts handle events before middle after := by
  obtain ⟨earlier, after, hsplit⟩ := List.append_of_mem
    (List.count_pos_iff.mp (hone.closed ▸ Nat.one_pos : 0 < events.count (.closed handle)))
  have hrun' := hrun
  rw [hsplit, run_append] at hrun'
  obtain ⟨u, hu, hrest⟩ := Option.bind_eq_some_iff.mp hrun'
  obtain ⟨v, hv, -⟩ := Option.bind_eq_some_iff.mp hrest
  have hbusy : u.closing = some handle := by
    cases move_step hv with
    | closed _ hbusy => exact hbusy
  obtain ⟨before, middle, rfl, hmiddle⟩ := closing_run hidle hu hbusy
  have hevents : events = before ++ .closing handle :: (middle ++ .closed handle :: after) := by
    rw [hsplit]
    simp
  have hclosing := hone.closing
  have hclosed := hone.closed
  have hregistered := hone.registered
  rw [hevents] at hclosing hclosed hregistered
  have hneither : (RhpEvent.closing handle).registers handle = false ∧
      (RhpEvent.closed handle).registers handle = false := ⟨rfl, rfl⟩
  simp only [List.count_append, List.count_cons, List.countP_append, List.countP_cons,
    hneither.1, hneither.2, beq_self_eq_true, if_true, Bool.false_eq_true, if_false,
    reduceCtorEq, beq_iff_eq] at hclosing hclosed hregistered
  refine ⟨before, middle, after, hevents, hmiddle, ?_, ?_, ?_, ?_, by omega⟩ <;>
    refine List.count_eq_zero.mp ?_ <;> omega

theorem takeWhile_ne {later : List RhpEvent} (h : event ∉ events) :
    (events ++ event :: later).takeWhile (· ≠ event) = events := by
  have hne : ∀ e ∈ events, decide (e ≠ event) = true := by
    intro e he
    refine decide_eq_true ?_
    rintro rfl
    exact h he
  rw [List.takeWhile_append_of_pos hne, List.takeWhile_cons_of_neg (by simp), List.append_nil]

section Parts

variable {before middle after : List RhpEvent} (hparts : Parts handle events before middle after)
include hparts

theorem Parts.not_mem_middle (event : RhpEvent) (hpush : event.isPush = true) : event ∉ middle :=
  fun h => Bool.false_ne_true ((hparts.tasks event h).symm.trans hpush)

/-- Nothing is received in the middle of the close push. -/
theorem Parts.receivedOn_middle : receivedOn handle middle = [] := by
  refine List.filterMap_eq_nil_iff.mpr fun e he => ?_
  cases e with
  | received h data => exact absurd he (hparts.not_mem_middle _ rfl)
  | _ => rfl

/-- **What a life comes to.** There are three places for the registration, before the data, between
and after. -/
theorem Parts.foldl_step (hkept : .closeChild handle ∉ events) :
    events.foldl (ChildStream.step handle) (.unknown []) =
      if 0 < before.countP (·.registers handle) then .known (receivedOn handle before) true
      else if 0 < middle.countP (·.registers handle) then .known [] true
      else .known (receivedOn handle after) false := by
  have hone := hparts.one
  have hquiet := hparts.receivedOn_middle
  have hclosing := hparts.not_mem_middle (.closing handle) rfl
  have hclosed := hparts.not_mem_middle (.closed handle) rfl
  have hnone : ∀ l : List RhpEvent, l.countP (·.registers handle) = 0 →
      ∀ e ∈ l, e.registers handle = false := fun l hl e he =>
    Bool.eq_false_iff.mpr (List.countP_eq_zero.mp hl e he)
  rw [hparts.eq_append] at hkept ⊢
  simp only [List.mem_append, List.mem_cons, reduceCtorEq, false_or, not_or] at hkept
  obtain ⟨hbefore, hmiddle, hafter⟩ := hkept
  rw [List.foldl_append, List.foldl_cons, List.foldl_append, List.foldl_cons]
  split
  · -- registered before the close push
    rw [ChildStream.foldl_registered [] (by omega) hparts.closing_before hparts.closed_before
        hbefore, ChildStream.step_known_closing,
      ChildStream.foldl_known _ (hnone middle (by omega)) hclosed hmiddle, hquiet,
      ChildStream.step_known_closed, ChildStream.foldl_ended _ (hnone after (by omega))]
    simp
  · rw [ChildStream.foldl_unknown [] (hnone before (by omega)) hparts.closing_before,
      ChildStream.step_unknown_closing]
    split
    · -- registered in the middle of it
      rw [ChildStream.foldl_registered [] (by omega) hclosing hclosed hmiddle,
        ChildStream.step_known_closed, hquiet,
        ChildStream.foldl_ended _ (hnone after (by omega))]
      rfl
    · -- registered after it
      rw [ChildStream.foldl_unknown [] (hnone middle (by omega)) hclosing, hquiet,
        ChildStream.step_unknown_closed,
        ChildStream.foldl_registered _ (by omega) hparts.closing_after hparts.closed_after hafter]
      rfl

theorem Parts.receivedBeforeClose_eq :
    receivedBeforeClose handle events = (receivedOn handle before).flatten := by
  rw [receivedBeforeClose, hparts.eq_append, takeWhile_ne hparts.closing_before]

/-- What it takes to be in time. -/
theorem Parts.timely_iff : Timely handle events ↔ 0 < before.countP (·.registers handle) ∨
    0 < middle.countP (·.registers handle) ∧ (receivedOn handle before).flatten = [] := by
  have hsome : ∀ l : List RhpEvent, (∃ e ∈ l, e.registers handle = true) ↔
      0 < l.countP (·.registers handle) := fun l => List.countP_pos_iff.symm
  have hnot : (RhpEvent.closing handle).registers handle = false := rfl
  have hbefore : events.takeWhile (· ≠ .closing handle) = before := by
    rw [hparts.eq_append, takeWhile_ne hparts.closing_before]
  have hearly : events.takeWhile (· ≠ .closed handle) = before ++ .closing handle :: middle := by
    rw [hparts.eq_append, ← List.cons_append, ← List.append_assoc, takeWhile_ne]
    simp [hparts.closed_before, hparts.not_mem_middle (.closed handle) rfl]
  rw [Timely, hbefore, hearly, hparts.receivedBeforeClose_eq, hsome, hsome, List.countP_append,
    List.countP_cons, hnot, if_neg Bool.false_ne_true]
  constructor
  · rintro (hb | ⟨hpos, hnil⟩)
    · exact Or.inl hb
    · rcases Nat.eq_zero_or_pos (before.countP (·.registers handle)) with hb | hb
      · exact Or.inr ⟨by omega, hnil⟩
      · exact Or.inl hb
  · rintro (hb | ⟨hm, hnil⟩)
    · exact Or.inl hb
    · exact Or.inr ⟨by omega, hnil⟩

end Parts

/-- **A stream is whole** exactly when its handle is registered in time. In time is before the close
push has taken what was put aside. -/
theorem delivers_iff {past : List RhpEvent} (hpast : new.run past = some s)
    (hfree : Free handle s) (hone : OneLife handle events) (hrun : s.run events = some t) :
    Delivers s.link.connections.length handle events t ↔ Timely handle events := by
  have hwired : s.link.Wired := run_induction (I := fun _ u => u.link.Wired)
    (fun h id hid => by cases hid) (fun log u event v hu hstep => (move_step hstep).wired hu) hpast
  obtain ⟨before, middle, after, hparts⟩ := hone.parts hfree.idle hrun
  have hfollows := follows_run hwired hfree hrun
  rw [hparts.foldl_step hone.kept] at hfollows
  rw [hparts.timely_iff]
  split at hfollows
  · rename_i hbefore
    rw [delivers_iff_of_follows hfollows, hparts.receivedBeforeClose_eq]
    simp [hbefore]
  · rename_i hbefore
    split at hfollows
    · rename_i hmiddle
      rw [delivers_iff_of_follows hfollows, hparts.receivedBeforeClose_eq]
      simp [hbefore, hmiddle, eq_comm]
    · rename_i hmiddle
      rw [delivers_iff_of_follows hfollows]
      simp [hbefore, hmiddle]

/-- The reply to our `open` comes first, and the task goes on between two pushes. -/
def timelyRun : List RhpEvent :=
  [.received 1 [72], .opened 1 "NODE".toList, .received 1 [73], .read 0 (some [72]), .closing 1,
    .closed 1]

/-- The byte that came before the reply was put aside, and the reply is in time for it. -/
theorem delivers_timelyRun :
    ∃ t, new.run [] = some new ∧ Free 1 new ∧ OneLife 1 timelyRun ∧ new.run timelyRun = some t ∧
      (Delivers new.link.connections.length 1 timelyRun t ↔ Timely 1 timelyRun) ∧
        Timely 1 timelyRun := by
  have hfree : Free 1 new := ⟨rfl, rfl, rfl⟩
  have hone : OneLife 1 timelyRun := ⟨rfl, rfl, rfl, by decide⟩
  obtain ⟨t, ht⟩ : ∃ t, new.run timelyRun = some t := ⟨_, rfl⟩
  have hnew : new.run [] = some new := rfl
  exact ⟨t, hnew, hfree, hone, ht, delivers_iff hnew hfree hone ht,
    Or.inl ⟨.opened 1 "NODE".toList, by decide, rfl⟩⟩

/-- The task goes on after the close push. -/
def lateRun : List RhpEvent :=
  [.received 1 [72, 73], .closing 1, .closed 1, .opened 1 "NODE".toList]

/-- **A stream that loses its data, and never ends.** The close push has taken what was put aside,
and the registration comes after it. -/
theorem not_delivers_lateRun :
    ¬ ∀ (handle : ℤ) (past events : List RhpEvent) (s t : Attachment), new.run past = some s →
      Free handle s → OneLife handle events → s.run events = some t →
        Delivers s.link.connections.length handle events t := by
  intro h
  have hfree : Free 1 new := ⟨rfl, rfl, rfl⟩
  have hone : OneLife 1 lateRun := ⟨rfl, rfl, rfl, by decide⟩
  obtain ⟨t, ht⟩ : ∃ t, new.run lateRun = some t := ⟨_, rfl⟩
  have hwired : new.link.Wired := fun h id hid => by cases hid
  have hlife : lateRun.foldl (ChildStream.step 1) (.unknown []) = .known [] false := by decide
  have hfollows := follows_run hwired hfree ht
  rw [hlife] at hfollows
  exact Bool.false_ne_true ((delivers_iff_of_follows hfollows).mp (h 1 [] lateRun new t rfl hfree
    hone ht)).1

end Attachment

end Convers
