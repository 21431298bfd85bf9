import Mathlib

/-!
# Abbreviations

A word stands for an entry of a list when no other entry admits it. Two ways to find the entry are
here: to go through the list and to give up at the second that admits the word, unless one is met
exactly (`Abbreviation.pick`), and to take the first one (`List.find?`). Both are right whatever the
order of the list, the one when an entry that is met exactly is the only one that admits the word
(`Abbreviation.pick_eq_some_iff`), the other when all that admit it mean the same
(`Abbreviation.map_find?_eq_some_iff`).
-/

namespace Abbreviation

variable {α β : Type*} {admits exact : α → Bool} {l : List α} {a b : α}

/-- The entries that are left are gone through, when one may have admitted the word before. -/
def pick (admits exact : α → Bool) : Option α → List α → Option α
  | found, [] => found
  | found, a :: l =>
    if admits a then
      if exact a then some a
      else match found with
        | some _ => none
        | none => pick admits exact (some a) l
    else pick admits exact found l

/-- The word stands for the entry: no other admits it. -/
def Means (admits : α → Bool) (l : List α) (a : α) : Prop :=
  a ∈ l ∧ admits a = true ∧ ∀ b ∈ l, admits b = true → b = a

/-- Once one has admitted the word, no other may. -/
theorem pick_some_eq_some_iff (hexact : ∀ c ∈ l, admits c = true → exact c = false) :
    pick admits exact (some b) l = some a ↔ a = b ∧ ∀ c ∈ l, admits c = false := by
  induction l with
  | nil => rw [pick, Option.some.injEq, and_iff_left (by simp), eq_comm]
  | cons c l ih =>
    rw [pick]
    split
    · rename_i hadmits
      rw [if_neg (by rw [hexact c List.mem_cons_self hadmits]; exact Bool.false_ne_true)]
      refine iff_of_false (by simp) fun h => ?_
      rw [h.2 c List.mem_cons_self] at hadmits
      cases hadmits
    · rename_i hadmits
      rw [ih fun d hd => hexact d (List.mem_cons_of_mem c hd), List.forall_mem_cons]
      exact and_congr_right fun _ => (and_iff_right (Bool.eq_false_iff.mpr hadmits)).symm

/-- **The entry that is picked is the one the word stands for**, when what is met exactly is alone
in admitting it. So no entry of a vocabulary is hidden behind another one. -/
theorem pick_eq_some_iff (hnodup : l.Nodup)
    (hexact : ∀ c ∈ l, admits c = true → exact c = true → ∀ d ∈ l, admits d = true → d = c) :
    pick admits exact none l = some a ↔ Means admits l a := by
  induction l with
  | nil => simp [pick, Means]
  | cons c l ih =>
    obtain ⟨hnot, hnodup⟩ := List.nodup_cons.mp hnodup
    have hrest := ih hnodup fun d hd had hex e he => hexact d (List.mem_cons_of_mem c hd) had hex e
      (List.mem_cons_of_mem c he)
    rw [pick]
    split
    · rename_i hadmits
      -- it is `c`, or nothing
      have hmeans : Means admits (c :: l) a ↔ a = c ∧ ∀ d ∈ l, admits d = false := by
        constructor
        · rintro ⟨ha, hadm, honly⟩
          obtain rfl : c = a := honly c List.mem_cons_self hadmits
          refine ⟨rfl, fun d hd => Bool.eq_false_iff.mpr fun hd' => hnot ?_⟩
          rwa [honly d (List.mem_cons_of_mem c hd) hd'] at hd
        · rintro ⟨rfl, hnone⟩
          refine ⟨List.mem_cons_self, hadmits, fun d hd hd' => ?_⟩
          rcases List.mem_cons.mp hd with rfl | hd
          · rfl
          · rw [hnone d hd] at hd'
            cases hd'
      rw [hmeans]
      split
      · rename_i hex
        have hnone : ∀ d ∈ l, admits d = false := fun d hd => Bool.eq_false_iff.mpr fun hd' =>
          hnot (hexact c List.mem_cons_self hadmits hex d (List.mem_cons_of_mem c hd) hd' ▸ hd)
        rw [and_iff_left hnone, Option.some.injEq, eq_comm]
      · refine pick_some_eq_some_iff fun d hd hd' => Bool.eq_false_iff.mpr fun hex => hnot ?_
        rwa [hexact d (List.mem_cons_of_mem c hd) hd' hex c List.mem_cons_self hadmits]
    · rename_i hadmits
      rw [hrest, Means, Means, List.forall_mem_cons, List.mem_cons]
      refine ⟨fun ⟨ha, hadm, honly⟩ => ⟨Or.inr ha, hadm, fun h => absurd h hadmits, honly⟩, ?_⟩
      rintro ⟨rfl | ha, hadm, -, honly⟩
      · exact absurd hadm hadmits
      · exact ⟨ha, hadm, honly⟩

/-- **What the first entry means that admits the word is what any means that does**, when they
agree. So the order of a table says nothing that its rows do not. -/
theorem map_find?_eq_some_iff {f : α → β} {v : β}
    (hagree : ∀ c ∈ l, ∀ d ∈ l, admits c = true → admits d = true → f c = f d) :
    (l.find? admits).map f = some v ↔ ∃ c ∈ l, admits c = true ∧ f c = v := by
  rw [Option.map_eq_some_iff]
  constructor
  · rintro ⟨c, hfind, rfl⟩
    exact ⟨c, List.mem_of_find?_eq_some hfind, List.find?_some hfind, rfl⟩
  · rintro ⟨c, hc, hadm, rfl⟩
    obtain ⟨d, hd⟩ := Option.isSome_iff_exists.mp (List.find?_isSome.mpr ⟨c, hc, hadm⟩)
    exact ⟨d, hd, hagree d (List.mem_of_find?_eq_some hd) c hc (List.find?_some hd) hadm⟩

end Abbreviation
