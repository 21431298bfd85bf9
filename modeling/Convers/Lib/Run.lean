import Mathlib

/-!
# Runs of a machine

A machine is a step function on states, driven by a list of inputs. `Run.trace` is
what happens along the way: each input with the state it finds. An invariant is
kept by induction once and for all (`Run.invariant`), and the step it has to survive
may assume that the input is one of the run.
-/

variable {σ α : Type*}

namespace Run

variable (step : σ → α → σ)

/-- Each input of a run, with the state it finds. -/
def trace : σ → List α → List (σ × α)
  | _, [] => []
  | s, a :: inputs => (s, a) :: trace (step s a) inputs

/-- The state a run ends in. -/
def final (s : σ) (inputs : List α) : σ := inputs.foldl step s

@[simp] theorem trace_nil (s : σ) : trace step s [] = [] := rfl

@[simp] theorem trace_cons (s : σ) (a : α) (inputs : List α) :
    trace step s (a :: inputs) = (s, a) :: trace step (step s a) inputs := rfl

@[simp] theorem final_nil (s : σ) : final step s [] = s := rfl

@[simp] theorem final_cons (s : σ) (a : α) (inputs : List α) :
    final step s (a :: inputs) = final step (step s a) inputs := rfl

theorem final_append (s : σ) (inputs inputs' : List α) :
    final step s (inputs ++ inputs') = final step (final step s inputs) inputs' :=
  List.foldl_append

theorem trace_append (s : σ) (inputs inputs' : List α) :
    trace step s (inputs ++ inputs') =
      trace step s inputs ++ trace step (final step s inputs) inputs' := by
  induction inputs generalizing s with
  | nil => rfl
  | cons a inputs ih => rw [List.cons_append, trace_cons, ih, trace_cons, final_cons,
      List.cons_append]

variable {step}

/-- An input that arrives is one of the run. -/
theorem mem_of_mem_trace {s : σ} {inputs : List α} {p : σ × α} (hp : p ∈ trace step s inputs) :
    p.2 ∈ inputs := by
  induction inputs generalizing s with
  | nil => cases hp
  | cons a inputs ih =>
    rcases List.mem_cons.mp hp with rfl | hp
    · exact List.mem_cons_self
    · exact List.mem_cons_of_mem a (ih hp)

/-- **The induction on runs**: what holds at the start and survives every step of the run holds
wherever an input arrives, and at the end. The step may use that the input is one of the run, which
is how a condition on the inputs comes in. -/
theorem invariant {I : σ → Prop} {s : σ} (hs : I s) (inputs : List α)
    (hstep : ∀ p ∈ trace step s inputs, I p.1 → I (step p.1 p.2)) :
    (∀ p ∈ trace step s inputs, I p.1) ∧ I (final step s inputs) := by
  induction inputs generalizing s with
  | nil => exact ⟨by simp, hs⟩
  | cons a inputs ih =>
    have hnext : I (step s a) := hstep (s, a) (by simp) hs
    obtain ⟨hall, hfinal⟩ := ih hnext fun p hp => hstep p (by simp [hp])
    refine ⟨fun p hp => ?_, hfinal⟩
    rcases List.mem_cons.mp hp with rfl | hp
    · exact hs
    · exact hall p hp

/-- What holds at every state of a run holds after every step of it. -/
theorem forall_step {P : σ → Prop} {s : σ} {inputs : List α}
    (hall : ∀ p ∈ trace step s inputs, P p.1) (hfinal : P (final step s inputs)) :
    ∀ p ∈ trace step s inputs, P (step p.1 p.2) := by
  induction inputs generalizing s with
  | nil => simp
  | cons a inputs ih =>
    intro p hp
    rcases List.mem_cons.mp hp with rfl | hp
    · cases inputs with
      | nil => exact hfinal
      | cons b inputs => exact hall (step s a, b) (by simp)
    · exact ih (fun q hq => hall q (List.mem_cons_of_mem _ hq)) hfinal p hp

/-- **Two runs in step**: related states that every input takes to related states, with the
same outcome, give the same outcomes all along. -/
theorem map_trace_of_related {β : Type*} {R : σ → σ → Prop} {outcome : σ → α → β} {s t : σ}
    (hst : R s t) {inputs : List α}
    (hstep : ∀ p ∈ trace step s inputs, ∀ u, R p.1 u →
      R (step p.1 p.2) (step u p.2) ∧ outcome p.1 p.2 = outcome u p.2) :
    (trace step s inputs).map (fun p => outcome p.1 p.2) =
      (trace step t inputs).map (fun p => outcome p.1 p.2) := by
  induction inputs generalizing s t with
  | nil => rfl
  | cons a inputs ih =>
    obtain ⟨hnext, hsame⟩ := hstep (s, a) (by simp) t hst
    rw [trace_cons, trace_cons, List.map_cons, List.map_cons]
    exact congrArg₂ List.cons hsame
      (ih hnext fun p hp => hstep p (List.mem_cons_of_mem _ hp))

/-- **Nothing is lost on the way**: when each step takes out of what is waiting as much as it does
not leave there, a run does. Queues are accounted for by it: what went in has come out or is there
still. -/
theorem conserve {β : Type*} {waiting : σ → List β} {inflow outflow : σ → α → List β} {s : σ}
    (inputs : List α)
    (hstep : ∀ p ∈ trace step s inputs,
      waiting p.1 ++ inflow p.1 p.2 = outflow p.1 p.2 ++ waiting (step p.1 p.2)) :
    waiting s ++ (trace step s inputs).flatMap (fun p => inflow p.1 p.2) =
      (trace step s inputs).flatMap (fun p => outflow p.1 p.2) ++
        waiting (final step s inputs) := by
  induction inputs generalizing s with
  | nil => simp
  | cons a inputs ih =>
    have hfirst := hstep (s, a) (by simp)
    have hrest := ih fun p hp => hstep p (List.mem_cons_of_mem _ hp)
    rw [trace_cons, List.flatMap_cons, List.flatMap_cons, final_cons, ← List.append_assoc,
      hfirst, List.append_assoc, hrest, List.append_assoc]

/-- **What is seen of a run** is what its steps tell, one after another, when each step tells
what becomes of it. -/
theorem observe_final {β γ : Type*} {tell : β → γ → β} {s : σ} {inputs : List α}
    (observe : σ → β) (words : σ → α → List γ) (hstep : ∀ p ∈ trace step s inputs,
      observe (step p.1 p.2) = (words p.1 p.2).foldl tell (observe p.1)) :
    observe (final step s inputs) =
      ((trace step s inputs).flatMap fun p => words p.1 p.2).foldl tell (observe s) := by
  induction inputs generalizing s with
  | nil => rfl
  | cons a inputs ih =>
    rw [final_cons, ih fun p hp => hstep p (List.mem_cons_of_mem _ hp), hstep (s, a) (by simp),
      trace_cons, List.flatMap_cons, List.foldl_append]

/-- **What comes out of a run came out of an earlier one**, up to any point of it, when each step
puts out one thing at most. -/
theorem exists_prefix_of_flatMap {β : Type*} {output : σ × α → List β} {s : σ} {inputs : List α}
    (hone : ∀ p ∈ trace step s inputs, (output p).length ≤ 1) {l : List β}
    (hl : l <+: (trace step s inputs).flatMap output) :
    ∃ earlier, earlier <+: inputs ∧ (trace step s earlier).flatMap output = l := by
  induction inputs generalizing s l with
  | nil => exact ⟨[], List.nil_prefix, (List.prefix_nil.mp hl).symm⟩
  | cons a inputs ih =>
    have hrest := fun p hp => hone p (List.mem_cons_of_mem (s, a) hp)
    rw [trace_cons, List.flatMap_cons] at hl
    have hlength := hone (s, a) (by simp)
    rcases hfirst : output (s, a) with _ | ⟨b, _ | ⟨c, rest⟩⟩
    · rw [hfirst, List.nil_append] at hl
      obtain ⟨earlier, hearlier, heq⟩ := ih hrest hl
      refine ⟨a :: earlier, List.cons_prefix_cons.mpr ⟨rfl, hearlier⟩, ?_⟩
      rw [trace_cons, List.flatMap_cons, hfirst, List.nil_append, heq]
    · rw [hfirst, List.singleton_append] at hl
      rcases List.prefix_cons_iff.mp hl with rfl | ⟨l', rfl, hl'⟩
      · exact ⟨[], List.nil_prefix, rfl⟩
      · obtain ⟨earlier, hearlier, heq⟩ := ih hrest hl'
        refine ⟨a :: earlier, List.cons_prefix_cons.mpr ⟨rfl, hearlier⟩, ?_⟩
        rw [trace_cons, List.flatMap_cons, hfirst, List.singleton_append, heq]
    · rw [hfirst, List.length_cons, List.length_cons] at hlength
      omega

end Run
