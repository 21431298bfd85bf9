import Convers.Host.Composition
import Convers.Host.Mirror

/-!
# A task that nothing disturbs

When nothing happens in the machine but the steps of one task and of the loop, the task writes what
it writes alone (`Convers.Composition.alone_of_undisturbed`). It may run ahead of the loop: an event
it has handed over can still be on the queue while it writes. But a snapshot comes only after every
event before it, and what is shared is not touched by the loop; so the steps of the two can be put
in the order they have in `Script.alone`, and the queue is what the loop has still to catch up with.
-/

namespace Convers

namespace Composition

/-- A step of the task, or of the loop. -/
def Label.IsOf (id : Text) : Label → Prop
  | .proceed _ taskId => taskId = id
  | .drain .. => True
  | _ => False

/-- What a task writes in a step, and reports. -/
def said (n : Composition) : Label → List Text × Option WebChat.ChannelView
  | .proceed now id =>
    match n.tasks.find? id with
    | some task =>
      if task.waiting then ([], none)
      else
        let turn := task.script.turn now n.shared
        (turn.written.toList, turn.reported)
    | none => ([], none)
  | _ => ([], none)

/-- What tasks write in a run, and the report. -/
def saidIn (n : Composition) : List Label → List Text × Option WebChat.ChannelView
  | [] => ([], none)
  | label :: labels =>
    let rest := (n.step label).saidIn labels
    ((n.said label).1 ++ rest.1, (n.said label).2.or rest.2)

/-- **How far a task is that started as `script`**: alone it would come to what it has said, and
what it comes to after the loop has caught up. -/
structure Follows (answers : ℕ → Text) (id : Text) (script : SessionScript) (h : Hub) (w : Shared)
    (n : Composition) (written : List Text) (reported : Option WebChat.ChannelView) : Prop where
  exists_task : ∃ (task : SessionTask) (events : List ConversEvent),
    n.tasks.find? id = some task ∧
    (task.waiting = true → ∃ next, task.script = .snapshot next) ∧
    n.queue = events.map .event ++ (if task.waiting then [.snapshot id] else []) ∧
    ∀ (times : List DateTimeOffset) (clock : ℕ → DateTimeOffset), times.length = events.length →
      ∃ clock', script.alone Hub.step clock' answers h w =
        (task.script.alone Hub.step clock answers (Run.final Hub.step n.hub (times.zip events))
          n.shared).after written reported

section Step

variable {answers : ℕ → Text} {id : Text} {script : SessionScript} {h : Hub} {w : Shared}
  {n : Composition} {written : List Text} {reported : Option WebChat.ChannelView}

/-- The task takes a step. -/
theorem Follows.proceed (hf : Follows answers id script h w n written reported)
    (now : DateTimeOffset) :
    Follows answers id script h w (n.step (.proceed now id))
      (written ++ (n.said (.proceed now id)).1) (reported.or (n.said (.proceed now id)).2) := by
  obtain ⟨task, events, hfind, hwaits, hqueue, halone⟩ := hf
  obtain rfl : task.id = id := Table.key_of_find? hfind
  rcases hwaiting : task.waiting with _ | _
  swap
  · have hstep : n.step (.proceed now task.id) = n := by
      simp [step, next, hfind, hwaiting]
    have hsaid : n.said (.proceed now task.id) = ([], none) := by
      simp [said, hfind, hwaiting]
    rw [hstep, hsaid, List.append_nil, Option.or_none]
    exact ⟨task, events, hfind, hwaits, hqueue, halone⟩
  have hstep : n.step (.proceed now task.id) = (n.proceedTask now task).1 := by
    simp [step, next, hfind, hwaiting]
  have hsaid : n.said (.proceed now task.id) =
      ((task.script.turn now n.shared).written.toList,
        (task.script.turn now n.shared).reported) := by
    simp [said, hfind, hwaiting]
  have hfind' : (n.proceedTask now task).1.tasks.find? task.id =
      some { task with
        script := (task.script.turn now n.shared).next
        waiting := (task.script.turn now n.shared).asks } :=
    (n.tasks.find?_put _ _).trans (if_pos rfl)
  have hqueue' : (n.proceedTask now task).1.queue = events.map .event ++
      (task.script.turn now n.shared).event.toList.map .event ++
        if (task.script.turn now n.shared).asks then [.snapshot task.id] else [] := by
    rw [proceedTask, hqueue, hwaiting]
    simp
  rw [hstep, hsaid]
  refine ⟨_, events ++ (task.script.turn now n.shared).event.toList, hfind', ?_, ?_, ?_⟩
  · rcases hscript : task.script with _ | _ | _ | next | _ | _ | _
    all_goals simp [Script.turn]
  · rw [hqueue', List.map_append]
  · intro times clock hlength
    have hsplit : times.zip (events ++ (task.script.turn now n.shared).event.toList) =
        (times.take events.length).zip events ++
          (times.drop events.length).zip (task.script.turn now n.shared).event.toList := by
      rw [← List.zip_append (by simp [hlength]), List.take_append_drop]
    obtain ⟨clock₁, hturn⟩ := Script.alone_turn Hub.step task.script now n.shared
      (times.drop events.length) (by simp [hlength]) clock answers
      (Run.final Hub.step n.hub ((times.take events.length).zip events))
    obtain ⟨clock', hclock⟩ := halone (times.take events.length) clock₁ (by simp [hlength])
    refine ⟨clock', ?_⟩
    rw [hclock, hturn, Script.Outcome.after_after, hsplit, Run.final_append]
    rfl

/-- The loop takes a step. -/
theorem Follows.drain (hf : Follows answers id script h w n written reported)
    (links : HostLink.Links) (succeeds : ℕ → Bool) (now : DateTimeOffset) :
    Follows answers id script h w (n.step (.drain links succeeds now)) written reported := by
  obtain ⟨task, events, hfind, hwaits, hqueue, halone⟩ := hf
  obtain rfl : task.id = id := Table.key_of_find? hfind
  rcases events with _ | ⟨event, events⟩
  · rcases hwaiting : task.waiting with _ | _
    · -- nothing is on the queue
      have hstep : n.step (.drain links succeeds now) = n := by
        simp [step, next, drainQueue, hqueue, hwaiting]
      rw [hstep]
      exact ⟨task, [], hfind, hwaits, hqueue, halone⟩
    · -- the snapshot
      obtain ⟨next', hscript⟩ := hwaits hwaiting
      have hstep : n.step (.drain links succeeds now) =
          { n with queue := [] }.putTask { task with
            script := task.script.resume n.hub n.shared, waiting := false } := by
        simp [step, next, drainQueue, hqueue, hwaiting, hfind]
      rw [hstep]
      refine ⟨_, [], (n.tasks.find?_put _ _).trans (if_pos rfl), by simp, by simp [putTask], ?_⟩
      intro times clock hlength
      obtain rfl := List.length_eq_zero_iff.mp hlength
      obtain ⟨clock', hclock⟩ := halone [] clock rfl
      refine ⟨clock', ?_⟩
      rw [hclock, hscript]
      rfl
  · -- an event
    have hstep : n.step (.drain links succeeds now) =
        ({ n with queue := events.map LoopWork.event ++
            if task.waiting then [LoopWork.snapshot task.id] else [] }.carryOut now
          (HostLink.drainLocalEvent links HostLink.isLoggableLocal succeeds now n.hub event).1
          (HostLink.drainLocalEvent links HostLink.isLoggableLocal succeeds now n.hub
            event).2.effects).1 := by
      simp [step, next, drainQueue, hqueue]
    rw [hstep]
    refine ⟨task, events, hfind, hwaits, rfl, fun times clock hlength => ?_⟩
    obtain ⟨clock', hclock⟩ := halone (now :: times) clock (by simp [hlength])
    refine ⟨clock', ?_⟩
    rw [hclock, List.zip_cons_cons, Run.final_cons, carryOut, HostLink.hub_drainLocalEvent]

/-- **The steps of the two, one after the other.** The labels are those of the task and of the loop,
in turn. -/
theorem Follows.run (hf : Follows answers id script h w n written reported) {labels : List Label}
    (hof : ∀ label ∈ labels, label.IsOf id) :
    Follows answers id script h w (Run.final step n labels) (written ++ (n.saidIn labels).1)
      (reported.or (n.saidIn labels).2) := by
  induction labels generalizing n written reported with
  | nil =>
    rw [saidIn, List.append_nil, Option.or_none]
    exact hf
  | cons label labels ih =>
    obtain ⟨hlabel, hlabels⟩ := List.forall_mem_cons.mp hof
    rw [saidIn, ← List.append_assoc, ← Option.or_assoc]
    cases label with
    | proceed now taskId =>
      obtain rfl : taskId = id := hlabel
      exact ih (hf.proceed now) hlabels
    | drain links succeeds now =>
      have hsaid : n.said (.drain links succeeds now) = ([], none) := rfl
      rw [hsaid, List.append_nil, Option.or_none]
      exact ih (hf.drain links succeeds now) hlabels
    | connect | readLine | respond | close | request | inbound => cases hlabel

end Step

/-- **A task that nothing disturbs says what it says alone**, and leaves what it leaves alone, when
it is done and the queue is empty again. So a result on a script alone is one on a session of the
host. -/
theorem alone_of_undisturbed {id : Text} {task task' : SessionTask} {n : Composition}
    (htask : n.tasks.find? id = some task) (hwaiting : task.waiting = false) (hqueue : n.queue = [])
    (labels : List Label) (hof : ∀ label ∈ labels, label.IsOf id)
    (htask' : (Run.final step n labels).tasks.find? id = some task')
    (hdone : task'.script.isDone = true) (hqueue' : (Run.final step n labels).queue = [])
    (answers : ℕ → Text) :
    ∃ clock, task.script.alone Hub.step clock answers n.hub n.shared =
      ⟨(Run.final step n labels).hub, (Run.final step n labels).shared, (n.saidIn labels).1,
        (n.saidIn labels).2⟩ := by
  have hstart : Follows answers id task.script n.hub n.shared n [] none := by
    refine ⟨task, [], htask, by simp [hwaiting], by simp [hqueue, hwaiting], ?_⟩
    intro times clock hlength
    obtain rfl := List.length_eq_zero_iff.mp hlength
    exact ⟨clock, rfl⟩
  obtain ⟨task'', events, hfind, hwaits, hevents, halone⟩ := hstart.run hof
  obtain rfl : task' = task'' := Option.some.inj (htask'.symm.trans hfind)
  -- the task is done, so it waits for nothing, and no event is left
  have hscript : task'.script = .done := by
    rcases hs : task'.script with _ | _ | _ | _ | _ | _ | _
    · rfl
    all_goals
      rw [hs] at hdone
      cases hdone
  rw [hqueue'] at hevents
  obtain ⟨hnone, -⟩ := List.append_eq_nil_iff.mp hevents.symm
  obtain rfl := List.map_eq_nil_iff.mp hnone
  obtain ⟨clock, hclock⟩ := halone [] (fun _ => ⟨0, zero_ticks_le⟩) rfl
  refine ⟨clock, hclock.trans ?_⟩
  rw [hscript, Script.alone, Script.Outcome.after_of_nil, List.nil_append, Option.none_or]
  rfl

end Composition

end Convers
