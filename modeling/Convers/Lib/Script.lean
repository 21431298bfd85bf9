import Mathlib

/-!
# Tasks around a loop

A loop owns a state, and the tasks around it do not touch that state: a task changes what the tasks
share, hands the loop an event, asks it for a snapshot, writes a text, waits for one, and may end
with a report on what has been recorded. `Script` is what a task still has to do, as a tree that
branches on what it is answered, and `Script.turn` is its next step; `Script.alone` is what it comes
to when nothing else happens.

What a task may hand over is read off its script (`Script.Hands`), whatever it is answered. Two
scripts are alike (`Script.Alike`) if they differ in nothing but the events they hand over. They
stay so whatever they are answered, and every step of the one is a step of the other
(`Script.Alike.turn`).
-/

/-- What a task still has to do: `τ` is time, `ω` is what the tasks share, `η` the state of the
loop, `ε` its events, `α` are the texts and `κ` the reports. -/
inductive Script (τ ω η ε α κ : Type) where
  /-- Nothing is left. -/
  | done
  /-- What is shared is changed. -/
  | act (change : τ → ω → ω) (next : τ → ω → Script τ ω η ε α κ)
  /-- An event is handed to the loop. -/
  | submit (event : ε) (next : Script τ ω η ε α κ)
  /-- The loop is asked for a snapshot. -/
  | snapshot (next : η → ω → Script τ ω η ε α κ)
  /-- A text is written. -/
  | write (text : α) (next : Script τ ω η ε α κ)
  /-- A text is waited for. -/
  | read (next : α → Script τ ω η ε α κ)
  /-- A report is the last thing written. -/
  | report (page : κ)

namespace Script

variable {τ ω η ε α κ : Type}

/-- What one step of a task comes to. -/
structure Turn (τ ω η ε α κ : Type) where
  /-- What is shared after it. -/
  shared : ω
  next : Script τ ω η ε α κ
  /-- The event that was handed over. -/
  event : Option ε
  /-- A snapshot was asked for. -/
  asks : Bool
  written : Option α
  reported : Option κ

/-- The next step of a task. One that waits for a text stays where it is. -/
def turn (now : τ) (shared : ω) : Script τ ω η ε α κ → Turn τ ω η ε α κ
  | done => ⟨shared, done, none, false, none, none⟩
  | act change next => ⟨change now shared, next now shared, none, false, none, none⟩
  | submit event next => ⟨shared, next, some event, false, none, none⟩
  | snapshot next => ⟨shared, snapshot next, none, true, none, none⟩
  | write text next => ⟨shared, next, none, false, some text, none⟩
  | read next => ⟨shared, read next, none, false, none, none⟩
  | report page => ⟨shared, done, none, false, none, some page⟩

/-- The snapshot arrives. -/
def resume (state : η) (shared : ω) : Script τ ω η ε α κ → Script τ ω η ε α κ
  | snapshot next => next state shared
  | script => script

/-- The text arrives. -/
def answer (text : α) : Script τ ω η ε α κ → Script τ ω η ε α κ
  | read next => next text
  | script => script

/-- Whether nothing is left to do. -/
def isDone : Script τ ω η ε α κ → Bool
  | done => true
  | _ => false

theorem eq_done_of_isDone {s : Script τ ω η ε α κ} (h : s.isDone = true) : s = done := by
  cases s with
  | done => rfl
  | _ => cases h

/-- Whether a text is waited for. -/
def reads : Script τ ω η ε α κ → Bool
  | read _ => true
  | _ => false

/-- Whether a text is written next. -/
def writes : Script τ ω η ε α κ → Bool
  | write .. => true
  | _ => false

/-- The report that comes next, if one does. -/
def reports : Script τ ω η ε α κ → Option κ
  | report page => some page
  | _ => none

/-- It comes with the next step. -/
theorem reported_turn (now : τ) (shared : ω) (s : Script τ ω η ε α κ) :
    (s.turn now shared).reported = s.reports := by
  cases s <;> rfl

theorem eq_snapshot_of_asks {now : τ} {shared : ω} {s : Script τ ω η ε α κ}
    (h : (s.turn now shared).asks = true) : ∃ next, s = snapshot next := by
  cases s with
  | snapshot next => exact ⟨next, rfl⟩
  | _ => cases h

theorem eq_submit_of_event {now : τ} {shared : ω} {s : Script τ ω η ε α κ} {event : ε}
    (h : (s.turn now shared).event = some event) : ∃ next, s = submit event next := by
  cases s with
  | submit event' next =>
    cases h
    exact ⟨next, rfl⟩
  | _ => cases h

/-- A task that asks for a snapshot stays where it is. -/
theorem next_turn_of_asks {now : τ} {shared : ω} {s : Script τ ω η ε α κ}
    (h : (s.turn now shared).asks = true) : ∃ next, (s.turn now shared).next = snapshot next := by
  obtain ⟨next, rfl⟩ := eq_snapshot_of_asks h
  exact ⟨next, rfl⟩

/-- What a task writes that does nothing but write and read, with the texts it gets. -/
def outputs (answers : List α) : Script τ ω η ε α κ → List α
  | write text next => text :: outputs answers next
  | read next =>
    match answers with
    | [] => []
    | answer :: answers => outputs answers (next answer)
  | _ => []

/-- What a task leaves that is done. -/
structure Outcome (η ω α κ : Type) where
  state : η
  shared : ω
  written : List α
  reported : Option κ

/-- Something was written, and perhaps reported, before. -/
def Outcome.after (o : Outcome η ω α κ) (written : List α) (reported : Option κ) :
    Outcome η ω α κ :=
  { o with written := written ++ o.written, reported := reported.or o.reported }

@[simp] theorem Outcome.after_nil (o : Outcome η ω α κ) : o.after [] none = o := rfl

@[simp] theorem Outcome.after_of_nil (state : η) (shared : ω) (written : List α)
    (reported : Option κ) :
    (⟨state, shared, [], none⟩ : Outcome η ω α κ).after written reported =
      ⟨state, shared, written, reported⟩ := by
  simp [after]

@[simp] theorem Outcome.after_after (o : Outcome η ω α κ) (written written' : List α)
    (reported reported' : Option κ) :
    (o.after written' reported').after written reported =
      o.after (written ++ written') (reported.or reported') := by
  simp [after, List.append_assoc, Option.or_assoc]

/-- **A task alone with its loop**, of which `advance` is the step: an event is taken when it is
handed over, a snapshot comes when it is asked for, and nothing else happens. `clock` has the times
of the steps that take one, and `answers` the texts. -/
def alone (advance : η → τ × ε → η) :
    Script τ ω η ε α κ → (ℕ → τ) → (ℕ → α) → η → ω → Outcome η ω α κ
  | done, _, _, state, shared => ⟨state, shared, [], none⟩
  | act change next, clock, answers, state, shared =>
    (next (clock 0) shared).alone advance (fun n => clock (n + 1)) answers state
      (change (clock 0) shared)
  | submit event next, clock, answers, state, shared =>
    next.alone advance (fun n => clock (n + 1)) answers (advance state (clock 0, event)) shared
  | snapshot next, clock, answers, state, shared =>
    (next state shared).alone advance clock answers state shared
  | write text next, clock, answers, state, shared =>
    (next.alone advance clock answers state shared).after [text] none
  | read next, clock, answers, state, shared =>
    (next (answers 0)).alone advance clock (fun n => answers (n + 1)) state shared
  | report page, _, _, state, shared => ⟨state, shared, [], some page⟩

/-- **A task alone takes its next step**, at a time of its own, and the loop takes the event it
hands over, if there is one. An interleaved run is compared with an undisturbed one step by step
this way. -/
theorem alone_turn (advance : η → τ × ε → η) (s : Script τ ω η ε α κ) (now : τ) (shared : ω)
    (times : List τ) (htimes : times.length = (s.turn now shared).event.toList.length)
    (clock : ℕ → τ) (answers : ℕ → α) (state : η) :
    ∃ clock', s.alone advance clock' answers state shared =
      ((s.turn now shared).next.alone advance clock answers
        ((times.zip (s.turn now shared).event.toList).foldl advance state)
        (s.turn now shared).shared).after (s.turn now shared).written.toList
          (s.turn now shared).reported := by
  cases s with
  | done | snapshot | read =>
    obtain rfl := List.length_eq_zero_iff.mp htimes
    exact ⟨clock, rfl⟩
  | act change next =>
    obtain rfl := List.length_eq_zero_iff.mp htimes
    exact ⟨fun | 0 => now | n + 1 => clock n, rfl⟩
  | submit event next =>
    obtain ⟨time, rfl⟩ := List.length_eq_one_iff.mp htimes
    exact ⟨fun | 0 => time | n + 1 => clock n, rfl⟩
  | write text next =>
    obtain rfl := List.length_eq_zero_iff.mp htimes
    exact ⟨clock, rfl⟩
  | report page =>
    obtain rfl := List.length_eq_zero_iff.mp htimes
    exact ⟨clock, rfl⟩

/-- **Every event that a task may hand over** is of a kind. -/
def Hands (P : ε → Prop) : Script τ ω η ε α κ → Prop
  | done => True
  | act _ next => ∀ now shared, (next now shared).Hands P
  | submit event next => P event ∧ next.Hands P
  | snapshot next => ∀ state shared, (next state shared).Hands P
  | write _ next => next.Hands P
  | read next => ∀ text, (next text).Hands P
  | report _ => True

section Hands

variable {P : ε → Prop} {s : Script τ ω η ε α κ}

/-- **One step** hands over such an event, if one, and the rest is so again. A property of the
events of a script is so carried along the run of its task. -/
theorem Hands.turn (h : s.Hands P) (now : τ) (shared : ω) :
    (∀ e ∈ (s.turn now shared).event, P e) ∧ (s.turn now shared).next.Hands P := by
  cases s with
  | done | snapshot | read | report => exact ⟨by rintro _ ⟨⟩, h⟩
  | act change next => exact ⟨by rintro _ ⟨⟩, h now shared⟩
  | submit event next =>
    refine ⟨fun e he => ?_, h.2⟩
    cases he
    exact h.1
  | write text next => exact ⟨by rintro _ ⟨⟩, h⟩

theorem Hands.resume (h : s.Hands P) (state : η) (shared : ω) :
    (s.resume state shared).Hands P := by
  cases s with
  | snapshot next => exact h state shared
  | _ => exact h

theorem Hands.answer (h : s.Hands P) (text : α) : (s.answer text).Hands P := by
  cases s with
  | read next => exact h text
  | _ => exact h

end Hands

/-- **Two scripts that differ in the events only.** -/
inductive Alike (R : ε → ε → Prop) : Script τ ω η ε α κ → Script τ ω η ε α κ → Prop where
  | done : Alike R done done
  | act (change : τ → ω → ω) {next next' : τ → ω → Script τ ω η ε α κ}
      (h : ∀ now shared, Alike R (next now shared) (next' now shared)) :
      Alike R (act change next) (act change next')
  | submit {event event' : ε} (hevent : R event event') {next next' : Script τ ω η ε α κ}
      (h : Alike R next next') : Alike R (submit event next) (submit event' next')
  | snapshot {next next' : η → ω → Script τ ω η ε α κ}
      (h : ∀ state shared, Alike R (next state shared) (next' state shared)) :
      Alike R (snapshot next) (snapshot next')
  | write (text : α) {next next' : Script τ ω η ε α κ} (h : Alike R next next') :
      Alike R (write text next) (write text next')
  | read {next next' : α → Script τ ω η ε α κ} (h : ∀ text, Alike R (next text) (next' text)) :
      Alike R (read next) (read next')
  | report (page : κ) : Alike R (report page) (report page)

variable {R : ε → ε → Prop} {s s' : Script τ ω η ε α κ}

theorem Alike.refl (hR : ∀ event, R event event) (s : Script τ ω η ε α κ) : Alike R s s := by
  induction s with
  | done => exact .done
  | act change next ih => exact .act change fun now shared => ih now shared
  | submit event next ih => exact .submit (hR event) ih
  | snapshot next ih => exact .snapshot fun state shared => ih state shared
  | write text next ih => exact .write text ih
  | read next ih => exact .read fun text => ih text
  | report page => exact .report page

/-- Two steps that differ in the event only. -/
structure Turn.Alike (R : ε → ε → Prop) (t t' : Turn τ ω η ε α κ) : Prop where
  shared : t'.shared = t.shared
  next : Script.Alike R t.next t'.next
  event : Option.Rel R t.event t'.event
  asks : t'.asks = t.asks
  written : t'.written = t.written
  reported : t'.reported = t.reported

/-- **Scripts that are alike take the same steps**, but for the events. Two runs whose scripts are
alike can be followed side by side. -/
theorem Alike.turn (h : Alike R s s') (now : τ) (shared : ω) :
    Turn.Alike R (s.turn now shared) (s'.turn now shared) := by
  cases h with
  | done => exact ⟨rfl, .done, .none, rfl, rfl, rfl⟩
  | act change h => exact ⟨rfl, h now shared, .none, rfl, rfl, rfl⟩
  | submit hevent h => exact ⟨rfl, h, .some hevent, rfl, rfl, rfl⟩
  | snapshot h => exact ⟨rfl, .snapshot h, .none, rfl, rfl, rfl⟩
  | write text h => exact ⟨rfl, h, .none, rfl, rfl, rfl⟩
  | read h => exact ⟨rfl, .read h, .none, rfl, rfl, rfl⟩
  | report page => exact ⟨rfl, .done, .none, rfl, rfl, rfl⟩

theorem Alike.resume (h : Alike R s s') (state : η) (shared : ω) :
    Alike R (s.resume state shared) (s'.resume state shared) := by
  cases h with
  | done => exact .done
  | act change h => exact .act change h
  | submit hevent h => exact .submit hevent h
  | snapshot h => exact h state shared
  | write text h => exact .write text h
  | read h => exact .read h
  | report page => exact .report page

theorem Alike.answer (h : Alike R s s') (text : α) :
    Alike R (s.answer text) (s'.answer text) := by
  cases h with
  | done => exact .done
  | act change h => exact .act change h
  | submit hevent h => exact .submit hevent h
  | snapshot h => exact .snapshot h
  | write text' h => exact .write text' h
  | read h => exact h text
  | report page => exact .report page

/-- They wait for the same, and write at the same time. -/
theorem Alike.waits (h : Alike R s s') :
    s'.isDone = s.isDone ∧ s'.reads = s.reads ∧ s'.writes = s.writes := by
  cases h <;> exact ⟨rfl, rfl, rfl⟩

end Script
