import Mathlib

/-!
# A register where the newest wins

A register holds at most one value, and a value that is offered replaces it unless the
one held is strictly newer. The age is a key in a linear order. What is held is one of
the values offered, of the greatest key among them (`Newest.IsNewest`), and when the
keys tell the values apart it does not depend on the order of the offers
(`Newest.foldl_offer_perm`), or on how often one was made (`Newest.IsNewest.unique`).

A register may also keep what it holds on a tie (`Newest.keep`); what is put into that one is
found there when what it held is older, or is the same already (`Newest.map_keep_eq_iff`).
-/

variable {α κ : Type*} [LinearOrder κ]

namespace Newest

variable (key : α → κ)

/-- A value is offered. -/
def offer (held : Option α) (a : α) : Option α :=
  if held.any fun b => key a < key b then held else some a

/-- What is held is one of some values, and none of them is newer. -/
def IsNewest (values : List α) (held : Option α) : Prop :=
  (∀ a ∈ held, a ∈ values) ∧ ∀ a ∈ values, ∃ b ∈ held, key a ≤ key b

variable {key}

@[simp] theorem offer_none (a : α) : offer key none a = some a := by simp [offer]

theorem offer_some (b a : α) :
    offer key (some b) a = if key a < key b then some b else some a := by
  simp [offer]

theorem offer_of_newer {held : Option α} {a b : α} (hb : b ∈ held) (hlt : key a < key b) :
    offer key held a = held := by
  cases hb
  rw [offer_some, if_pos hlt]

theorem offer_of_not_newer {held : Option α} {a : α} (h : ∀ b ∈ held, key b ≤ key a) :
    offer key held a = some a := by
  rcases held with _ | b
  · exact offer_none a
  · rw [offer_some, if_neg (h b rfl).not_gt]

/-- The register at its start. -/
theorem isNewest_toList (held : Option α) : IsNewest key held.toList held :=
  ⟨fun _ ha => Option.mem_toList.mpr ha, fun a ha => ⟨a, Option.mem_toList.mp ha, le_rfl⟩⟩

/-- **A value that is not older than any takes the register.** A writer that checks the age itself
may so do without an offer. -/
theorem IsNewest.replace {values : List α} {held : Option α} (h : IsNewest key values held) {a : α}
    (ha : ∀ b ∈ held, key b ≤ key a) : IsNewest key (values ++ [a]) (some a) := by
  refine ⟨fun b hb => ?_, fun b hb => ⟨a, rfl, ?_⟩⟩
  · cases hb
    simp
  · rcases List.mem_append.mp hb with hb | hb
    · obtain ⟨c, hc, hle⟩ := h.2 b hb
      exact hle.trans (ha c hc)
    · rw [List.mem_singleton.mp hb]

/-- **An offer keeps the newest.** With it the newest of a run is kept step by step. -/
theorem IsNewest.offer {values : List α} {held : Option α} (h : IsNewest key values held) (a : α) :
    IsNewest key (values ++ [a]) (offer key held a) := by
  rcases held with _ | b
  · rw [offer_none]
    exact h.replace nofun
  · rw [offer_some]
    split
    · rename_i hlt
      refine ⟨fun c hc => List.mem_append_left _ (h.1 c hc), fun c hc => ?_⟩
      rcases List.mem_append.mp hc with hc | hc
      · exact h.2 c hc
      · rw [List.mem_singleton.mp hc]
        exact ⟨b, rfl, hlt.le⟩
    · rename_i hle
      refine h.replace fun c hc => ?_
      cases hc
      exact not_lt.mp hle

/-- **A coarser clock** sees the newest as well: what is held by a finer one is, seen that way, the
newest of what was seen. A store that keeps whole seconds is such a clock. -/
theorem IsNewest.offer_map {β κ' : Type*} [LinearOrder κ'] {f : α → β} {key' : β → κ'}
    (hmono : ∀ a b, key a ≤ key b → key' (f a) ≤ key' (f b)) {values : List β} {held : Option α}
    (h : IsNewest key' values (held.map f)) (a : α) :
    IsNewest key' (values ++ [f a]) ((Newest.offer key held a).map f) := by
  by_cases hnewer : ∃ b ∈ held, key a < key b
  · obtain ⟨b, hb, hlt⟩ := hnewer
    rw [offer_of_newer hb hlt]
    refine ⟨fun c hc => List.mem_append_left _ (h.1 c hc), fun c hc => ?_⟩
    rcases List.mem_append.mp hc with hc | hc
    · exact h.2 c hc
    · rw [List.mem_singleton.mp hc]
      exact ⟨f b, Option.mem_map_of_mem f hb, hmono a b hlt.le⟩
  · have hnot : ∀ b ∈ held, key b ≤ key a := fun b hb => not_lt.mp fun hlt => hnewer ⟨b, hb, hlt⟩
    rw [offer_of_not_newer hnot]
    refine h.replace fun c hc => ?_
    obtain ⟨b, hb, rfl⟩ := Option.mem_map.mp hc
    exact hmono b a (hnot b hb)

/-- **One newest** of the same values, when their ages tell them apart. Two registers that were
offered the same values therefore agree, whatever the orders. -/
theorem IsNewest.unique {values values' : List α} {held held' : Option α}
    (h : IsNewest key values held) (h' : IsNewest key values' held')
    (hsame : ∀ a, a ∈ values ↔ a ∈ values')
    (hkey : ∀ a ∈ values, ∀ b ∈ values, key a = key b → a = b) : held = held' := by
  rcases held with _ | a
  · rcases held' with _ | b
    · rfl
    · obtain ⟨c, hc, -⟩ := h.2 b ((hsame b).mpr (h'.1 b rfl))
      cases hc
  · have ha := h.1 a rfl
    obtain ⟨b, hb, hab⟩ := h'.2 a ((hsame a).mp ha)
    have hb' := (hsame b).mpr (h'.1 b hb)
    obtain ⟨c, hc, hba⟩ := h.2 b hb'
    cases hc
    rw [hkey a ha b hb' (le_antisymm hab hba)]
    exact hb.symm

/-- Two offers of different ages commute. -/
theorem offer_comm {a b : α} (hne : key a ≠ key b) (held : Option α) :
    offer key (offer key held a) b = offer key (offer key held b) a := by
  have htwo : offer key (some a) b = offer key (some b) a := by
    rw [offer_some, offer_some]
    rcases lt_or_gt_of_ne hne with hlt | hlt
    · rw [if_neg hlt.asymm, if_pos hlt]
    · rw [if_pos hlt, if_neg hlt.asymm]
  rcases held with _ | c
  · rw [offer_none, offer_none, htwo]
  · rcases lt_or_ge (key a) (key c) with ha | ha
    · rcases lt_or_ge (key b) (key c) with hb | hb
      · simp [offer_some, ha, hb]
      · simp [offer_some, ha, hb.not_gt, ha.trans_le hb]
    · rcases lt_or_ge (key b) (key c) with hb | hb
      · simp [offer_some, hb, ha.not_gt, hb.trans_le ha]
      · rw [offer_some, offer_some, if_neg ha.not_gt, if_neg hb.not_gt, htwo]

/-- **The order of the offers does not matter** when their ages tell them apart. Words that overtake
each other on their way come to the same in the end. -/
theorem foldl_offer_perm {l l' : List α} (hperm : l.Perm l')
    (hkey : ∀ a ∈ l, ∀ b ∈ l, key a = key b → a = b) (held : Option α) :
    l.foldl (offer key) held = l'.foldl (offer key) held := by
  refine hperm.foldl_eq' (fun a ha b hb held => ?_) held
  by_cases heq : key a = key b
  · rw [hkey a ha b hb heq]
  · exact offer_comm heq held

/-! ### A tie keeps what is held -/

variable (key) in
/-- A value is put where a tie does not replace. -/
def keep (held : Option α) (a : α) : Option α :=
  if held.any fun b => key a ≤ key b then held else some a

/-- **What is put is found there**, as far as a reader sees it, when what was held is older or looks
the same. This says exactly when the refusal of an offer shows. -/
theorem map_keep_eq_iff {β : Type*} (f : α → β) (held : Option α) (a : α) :
    (keep key held a).map f = some (f a) ↔ ∀ b ∈ held, key b < key a ∨ f b = f a := by
  rcases held with _ | b
  · simp [keep]
  · simp only [keep, Option.any_some, Option.mem_some_iff, forall_eq']
    by_cases hle : key a ≤ key b
    · rw [if_pos (decide_eq_true hle), Option.map_some, Option.some_inj]
      exact ⟨Or.inr, fun h => h.resolve_left hle.not_gt⟩
    · rw [if_neg (by simpa using hle), Option.map_some]
      exact ⟨fun _ => Or.inl (not_le.mp hle), fun _ => rfl⟩

end Newest
