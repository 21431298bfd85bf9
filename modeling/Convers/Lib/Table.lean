import Mathlib

/-!
# Tables

A dictionary whose values carry their own key: a list of records with pairwise
distinct keys (`Table`). The keys cannot get out of step with the records, since
the record is what is stored.

Everything about the two updates is said by what a lookup finds afterwards
(`Table.find?_put`, `Table.find?_remove`); the records of a table are those a
lookup finds (`Table.mem_records`). Two tables can be compared record by record
(`Table.Related`). A dictionary proper is the table of its pairs (`Table.Dict`).

A hash table promises no order of its records, and this one keeps them in the order they
came. What depends on the order is to be said of every order it can be enumerated in
(`Table.enumerate`, `Table.records_enumerate`); no lookup does (`Table.find?_of_perm`).
-/

variable {α κ ν : Type*} {key : α → κ}

/-- Records with pairwise distinct keys. -/
structure Table (key : α → κ) where
  /-- The records, in the order they came: one of the orders that an enumeration may find
  them in. -/
  records : List α
  /-- No two of them have one key. -/
  nodup : (records.map key).Nodup

namespace Table

theorem ext {s t : Table key} (h : s.records = t.records) : s = t := by
  cases s
  cases t
  simp_all

/-- The table without records. -/
def empty : Table key := ⟨[], List.nodup_nil⟩

instance : Inhabited (Table key) := ⟨empty⟩

instance [DecidableEq α] : DecidableEq (Table key) := fun s t =>
  decidable_of_iff (s.records = t.records) ⟨ext, congrArg records⟩

variable [DecidableEq κ]

/-- The record of a key. -/
def find? (t : Table key) (k : κ) : Option α := t.records.find? (key · = k)

/-- Whether a key has a record. -/
def contains (t : Table key) (k : κ) : Bool := (t.find? k).isSome

theorem key_of_find? {t : Table key} {k : κ} {a : α} (h : t.find? k = some a) : key a = k :=
  of_decide_eq_true (List.find?_some h :)

theorem mem_of_find? {t : Table key} {k : κ} {a : α} (h : t.find? k = some a) : a ∈ t.records :=
  List.mem_of_find?_eq_some h

/-- In a list with distinct keys a record is found under its own. -/
theorem find?_of_mem {l : List α} (hnodup : (l.map key).Nodup) {a : α} (h : a ∈ l) :
    l.find? (key · = key a) = some a := by
  induction l with
  | nil => cases h
  | cons b l ih =>
    rw [List.map_cons, List.nodup_cons] at hnodup
    rcases List.mem_cons.mp h with rfl | hmem
    · exact List.find?_cons_of_pos (decide_eq_true rfl)
    · have hne : key b ≠ key a := fun heq => hnodup.1 (heq ▸ List.mem_map_of_mem hmem)
      rw [List.find?_cons_of_neg (by simpa using hne), ih hnodup.2 hmem]

/-- **The records are what the lookups find.** Proofs go through the lookups, and come back to the
records only where something is enumerated. -/
theorem mem_records {t : Table key} {a : α} : a ∈ t.records ↔ t.find? (key a) = some a :=
  ⟨find?_of_mem t.nodup, mem_of_find?⟩

@[simp] theorem find?_empty (k : κ) : (empty : Table key).find? k = none := rfl

/-- Store a record: in the place of the one with its key, or at the end. -/
def put (t : Table key) (a : α) : Table key where
  records := if t.contains (key a) then t.records.map (fun b => if key b = key a then a else b)
    else t.records ++ [a]
  nodup := by
    split
    · have hkeys : (t.records.map fun b => if key b = key a then a else b).map key =
          t.records.map key := by
        rw [List.map_map]
        refine List.map_congr_left fun b _ => ?_
        simp only [Function.comp_apply]
        split
        · rename_i h
          exact h.symm
        · rfl
      rw [hkeys]
      exact t.nodup
    · rename_i h
      rw [List.map_append, List.map_singleton, List.nodup_append]
      refine ⟨t.nodup, List.nodup_singleton _, ?_⟩
      intro k hk k' hk' heq
      obtain ⟨b, hb, rfl⟩ := List.mem_map.mp hk
      obtain rfl := List.mem_singleton.mp hk'
      rw [contains, ← heq, mem_records.mp hb] at h
      exact h rfl

/-- Drop the record of a key. -/
def remove (t : Table key) (k : κ) : Table key where
  records := t.records.filter (key · ≠ k)
  nodup := t.nodup.sublist (List.filter_sublist.map key)

/-- **A lookup after a store.** -/
theorem find?_put (t : Table key) (a : α) (k : κ) :
    (t.put a).find? k = if k = key a then some a else t.find? k := by
  have hstored : a ∈ (t.put a).records := by
    simp only [put]
    split
    · rename_i h
      obtain ⟨b, hb⟩ := Option.isSome_iff_exists.mp h
      exact List.mem_map.mpr ⟨b, mem_of_find? hb, if_pos (key_of_find? hb)⟩
    · simp
  split
  · rename_i h
    rw [h]
    exact mem_records.mp hstored
  · rename_i h
    -- any other record is in the table before and after
    have hsame : ∀ b, key b = k → (b ∈ (t.put a).records ↔ b ∈ t.records) := by
      intro b hb
      simp only [put]
      split
      · rw [List.mem_map]
        constructor
        · rintro ⟨c, hc, rfl⟩
          split at hb
          · exact absurd hb.symm h
          · rename_i hca
            rwa [if_neg hca]
        · intro hmem
          exact ⟨b, hmem, if_neg (by rw [hb]; exact h)⟩
      · rw [List.mem_append, List.mem_singleton]
        constructor
        · rintro (hmem | rfl)
          · exact hmem
          · exact absurd hb.symm h
        · exact Or.inl
    ext b
    constructor
    · intro hb
      have hkey := key_of_find? hb
      exact hkey ▸ mem_records.mp ((hsame b hkey).mp (mem_of_find? hb))
    · intro hb
      have hkey := key_of_find? hb
      exact hkey ▸ mem_records.mp ((hsame b hkey).mpr (mem_of_find? hb))

/-- **A lookup after a removal.** -/
theorem find?_remove (t : Table key) (k k' : κ) :
    (t.remove k).find? k' = if k' = k then none else t.find? k' := by
  have hmem : ∀ b, b ∈ (t.remove k).records ↔ b ∈ t.records ∧ key b ≠ k := by
    simp [remove]
  ext b
  split
  · rename_i h
    simp only [reduceCtorEq, iff_false]
    intro hb
    exact ((hmem b).mp (mem_of_find? hb)).2 ((key_of_find? hb).trans h)
  · rename_i h
    constructor
    · intro hb
      exact key_of_find? hb ▸ mem_records.mp ((hmem b).mp (mem_of_find? hb)).1
    · intro hb
      have hkey := key_of_find? hb
      exact hkey ▸ mem_records.mp ((hmem b).mpr ⟨mem_of_find? hb, hkey ▸ h⟩)

@[simp] theorem find?_put_self (t : Table key) (a : α) : (t.put a).find? (key a) = some a := by
  rw [find?_put, if_pos rfl]

theorem find?_put_of_ne (t : Table key) {a : α} {k : κ} (h : k ≠ key a) :
    (t.put a).find? k = t.find? k := by
  rw [find?_put, if_neg h]

/-- **A lookup after several stores** finds the last one of its key. The order of the stores matters
for records of one key only. -/
theorem find?_foldl_put (t : Table key) (l : List α) (k : κ) :
    (l.foldl put t).find? k = (l.reverse.find? (key · = k)).or (t.find? k) := by
  induction l generalizing t with
  | nil => rfl
  | cons a l ih =>
    rw [List.foldl_cons, ih, List.reverse_cons, List.find?_append, find?_put, Option.or_assoc]
    by_cases hk : k = key a
    · simp [hk]
    · simp [hk, Ne.symm hk]

/-- **A lookup after the records of another table are read in** finds what that table has. -/
theorem find?_foldl_put_map {β : Type*} {key' : β → κ} (t : Table key) (u : Table key')
    (f : α → β) (hkey : ∀ a, key' (f a) = key a) (k : κ) :
    ((t.records.map f).foldl put u).find? k = ((t.find? k).map f).or (u.find? k) := by
  have hcomp : ((fun b => decide (key' b = k)) ∘ f) = fun a => decide (key a = k) := by
    funext a
    simp [hkey]
  have hreverse : t.records.reverse.find? (key · = k) = t.find? k := by
    have hnodup : (t.records.reverse.map key).Nodup := by
      rw [List.map_reverse, List.nodup_reverse]
      exact t.nodup
    rcases hk : t.find? k with _ | a
    · rw [List.find?_eq_none]
      intro a ha hak
      rw [← of_decide_eq_true hak, mem_records.mp (List.mem_reverse.mp ha)] at hk
      cases hk
    · obtain rfl := key_of_find? hk
      exact find?_of_mem hnodup (List.mem_reverse.mpr (mem_of_find? hk))
  rw [find?_foldl_put, ← List.map_reverse, List.find?_map, hcomp, hreverse]

/-- **A lookup after an update in place** of the records that a test selects. The selected records
are stored one by one, and none is met twice. -/
theorem find?_foldl_put_update (t : Table key) (p : α → Bool) (f : α → α)
    (hkey : ∀ a, key (f a) = key a) (k : κ) :
    (((t.records.filter p).map f).foldl put t).find? k =
      (t.find? k).map fun a => if p a then f a else a := by
  have hnodup : ((((t.records.filter p).map f).reverse).map key).Nodup := by
    have hcomp : key ∘ f = key := funext hkey
    rw [List.map_reverse, List.nodup_reverse, List.map_map, hcomp]
    exact t.nodup.sublist (List.filter_sublist.map key)
  rw [find?_foldl_put]
  rcases hk : t.find? k with _ | a
  · have hnone : ((t.records.filter p).map f).reverse.find? (key · = k) = none := by
      refine List.find?_eq_none.mpr fun b hb => ?_
      obtain ⟨a, ha, rfl⟩ := List.mem_map.mp (List.mem_reverse.mp hb)
      simp only [decide_eq_true_eq]
      rintro rfl
      rw [hkey, mem_records.mp (List.mem_of_mem_filter ha)] at hk
      cases hk
    rw [hnone]
    rfl
  · obtain rfl := key_of_find? hk
    by_cases hp : p a
    · have hmem : f a ∈ ((t.records.filter p).map f).reverse :=
        List.mem_reverse.mpr (List.mem_map_of_mem
          (List.mem_filter.mpr ⟨mem_records.mpr hk, hp⟩))
      have hfound := find?_of_mem hnodup hmem
      rw [hkey] at hfound
      rw [hfound, Option.map_some, if_pos hp]
      rfl
    · have hnone : ((t.records.filter p).map f).reverse.find? (key · = key a) = none := by
        refine List.find?_eq_none.mpr fun b hb => ?_
        obtain ⟨c, hc, rfl⟩ := List.mem_map.mp (List.mem_reverse.mp hb)
        obtain ⟨hmem, hpc⟩ := List.mem_filter.mp hc
        simp only [decide_eq_true_eq, hkey]
        intro heq
        rw [mem_records, heq, hk] at hmem
        cases hmem
        exact hp hpc
      rw [hnone, Option.map_some, if_neg hp]
      rfl

/-- A selection that leaves out the key stored does not see the store. -/
theorem filter_records_put (t : Table key) {a : α} {p : α → Bool}
    (h : ∀ b, key b = key a → p b = false) :
    (t.put a).records.filter p = t.records.filter p := by
  simp only [put]
  split
  · -- the one record replaced is selected neither before nor after
    induction t.records with
    | nil => rfl
    | cons b l ih =>
      rw [List.map_cons]
      by_cases hb : key b = key a
      · rw [if_pos hb, List.filter_cons_of_neg (by simp [h a rfl]), ih,
          List.filter_cons_of_neg (by simp [h b hb])]
      · rw [if_neg hb, List.filter_cons, List.filter_cons, ih]
  · rw [List.filter_append, List.filter_cons_of_neg (by simp [h a rfl]), List.filter_nil,
      List.append_nil]

/-- A selection that leaves out the key removed does not see the removal. -/
theorem filter_records_remove (t : Table key) {k : κ} {p : α → Bool}
    (h : ∀ b, key b = k → p b = false) :
    (t.remove k).records.filter p = t.records.filter p := by
  rw [remove, List.filter_filter]
  refine List.filter_congr fun b _ => ?_
  by_cases hb : key b = k
  · rw [h b hb, Bool.false_and]
  · simp [hb]

/-- **A selection has a key at most once**: when its record is selected. A fan-out to the selected
records so reaches each of them once. -/
theorem countP_filter (t : Table key) (p : α → Bool) (k : κ) :
    (t.records.filter p).countP (key · = k) = if (t.find? k).any p then 1 else 0 := by
  obtain ⟨l, hnodup⟩ := t
  rw [find?]
  dsimp only
  induction l with
  | nil => rfl
  | cons a l ih =>
    rw [List.map_cons, List.nodup_cons] at hnodup
    by_cases ha : key a = k
    · have hrest : (l.filter p).countP (key · = k) = 0 := by
        refine List.countP_eq_zero.mpr fun b hb hkey => hnodup.1 ?_
        rw [ha, ← of_decide_eq_true hkey]
        exact List.mem_map_of_mem (List.mem_of_mem_filter hb)
      rw [List.find?_cons_of_pos (by simpa using ha), Option.any_some, List.filter_cons]
      split
      · rw [List.countP_cons_of_pos (by simpa using ha), hrest]
      · exact hrest
    · rw [List.find?_cons_of_neg (by simpa using ha), ← ih hnodup.2, List.filter_cons]
      split
      · rw [List.countP_cons_of_neg (by simpa using ha)]
      · rfl

/-! ### Orders of enumeration -/

section Orders

variable (t : Table key) (order : List κ)

/-- **Tables with the same records** find the same, whatever the orders of the two. A result that is
about lookups alone does not depend on an enumeration. -/
theorem find?_of_perm {t u : Table key} (h : t.records.Perm u.records) (k : κ) :
    t.find? k = u.find? k := by
  ext a
  constructor
  · intro ha
    exact key_of_find? ha ▸ mem_records.mp (h.subset (mem_of_find? ha))
  · intro ha
    exact key_of_find? ha ▸ mem_records.mp (h.symm.subset (mem_of_find? ha))

/-- The records of some keys, in the order of the keys. -/
def listed : List α := order.dedup.filterMap t.find?

theorem mem_listed {a : α} : a ∈ t.listed order ↔ a ∈ t.records ∧ key a ∈ order := by
  rw [listed, List.mem_filterMap]
  constructor
  · rintro ⟨k, hk, hfind⟩
    obtain rfl := key_of_find? hfind
    exact ⟨mem_of_find? hfind, List.mem_dedup.mp hk⟩
  · rintro ⟨hmem, hkey⟩
    exact ⟨key a, List.mem_dedup.mpr hkey, mem_records.mp hmem⟩

theorem nodup_listed : ((t.listed order).map key).Nodup := by
  rw [listed]
  have hnodup := order.nodup_dedup
  generalize order.dedup = keys at hnodup
  induction keys with
  | nil => exact List.nodup_nil
  | cons k keys ih =>
    rw [List.nodup_cons] at hnodup
    rcases hk : t.find? k with _ | a
    · rw [List.filterMap_cons_none hk]
      exact ih hnodup.2
    · rw [List.filterMap_cons_some hk, List.map_cons, List.nodup_cons]
      refine ⟨fun hmem => ?_, ih hnodup.2⟩
      -- a record of a later key has that key
      obtain ⟨b, hb, hkey⟩ := List.mem_map.mp hmem
      obtain ⟨k', hk', hfind⟩ := List.mem_filterMap.mp hb
      rw [← key_of_find? hk, ← hkey, key_of_find? hfind] at hnodup
      exact hnodup.1 hk'

/-- **A table enumerated in another order**: the records of some keys first, in the order of the
keys, and the others after them. -/
def enumerate : Table key where
  records := t.listed order ++ t.records.filter (key · ∉ order)
  nodup := by
    rw [List.map_append, List.nodup_append]
    refine ⟨t.nodup_listed order, t.nodup.sublist (List.filter_sublist.map key), ?_⟩
    intro k hk k' hk' heq
    obtain ⟨a, ha, rfl⟩ := List.mem_map.mp hk
    obtain ⟨b, hb, rfl⟩ := List.mem_map.mp hk'
    have hnot := (List.mem_filter.mp hb).2
    rw [decide_eq_true_eq, ← heq] at hnot
    exact hnot ((t.mem_listed order).mp ha).2

/-- The records are the same, -/
theorem perm_enumerate : (t.enumerate order).records.Perm t.records := by
  rw [List.perm_ext_iff_of_nodup ((t.enumerate order).nodup.of_map key) (t.nodup.of_map key)]
  intro a
  rw [enumerate, List.mem_append, mem_listed, List.mem_filter, decide_eq_true_eq]
  by_cases hkey : key a ∈ order
  · simp [hkey]
  · simp [hkey]

/-- and every lookup finds the same. -/
@[simp] theorem find?_enumerate (k : κ) : (t.enumerate order).find? k = t.find? k :=
  find?_of_perm (t.perm_enumerate order) k

/-- **Every order is one of them.** What holds of a table in each of its orders holds in any order a
dictionary may choose. -/
theorem records_enumerate {l : List α} (h : l.Perm t.records) :
    (t.enumerate (l.map key)).records = l := by
  have hnodup : (l.map key).Nodup := ((h.map key).nodup_iff).mpr t.nodup
  have hlisted : t.listed (l.map key) = l := by
    rw [listed, hnodup.dedup, List.filterMap_map]
    refine (List.filterMap_congr fun a ha => ?_).trans List.filterMap_some
    exact mem_records.mp (h.subset ha)
  have hrest : t.records.filter (key · ∉ l.map key) = [] := by
    refine List.filter_eq_nil_iff.mpr fun a ha hnot => ?_
    exact of_decide_eq_true hnot (List.mem_map_of_mem (h.symm.subset ha))
  exact (congrArg₂ (· ++ ·) hlisted hrest).trans (List.append_nil l)

end Orders

/-! ### What all records have -/

/-- All records of the table have it. -/
def All (P : α → Prop) (t : Table key) : Prop := ∀ a ∈ t.records, P a

section All

variable {P : α → Prop} {t : Table key}

omit [DecidableEq κ] in
theorem all_empty : (empty : Table key).All P := by rintro _ ⟨⟩

theorem All.find? (h : t.All P) {k : κ} {a : α} (ha : t.find? k = some a) : P a :=
  h a (mem_of_find? ha)

theorem All.put (h : t.All P) {a : α} (ha : P a) : (t.put a).All P := by
  intro b hb
  have hfind := mem_records.mp hb
  rw [find?_put] at hfind
  split at hfind
  · exact Option.some.inj hfind ▸ ha
  · exact h.find? hfind

theorem All.remove (h : t.All P) (k : κ) : (t.remove k).All P :=
  fun a ha => h a (List.mem_of_mem_filter ha)

end All

/-! ### Tables renamed -/

section Rename

variable {β κ' : Type*} [DecidableEq κ'] {key' : β → κ'} (t : Table key) (f : α → β) {ρ : κ → κ'}
  (hρ : Function.Injective ρ) (hkey : ∀ a, key' (f a) = ρ (key a))

omit [DecidableEq κ] [DecidableEq κ'] in
include hρ hkey in
theorem nodup_rename : ((t.records.map f).map key').Nodup := by
  have hcomp : key' ∘ f = ρ ∘ key := funext hkey
  rw [List.map_map, hcomp, ← List.map_map]
  exact t.nodup.map hρ

/-- A table with its records, and with them the keys, under other names. -/
def rename : Table key' := ⟨t.records.map f, t.nodup_rename f hρ hkey⟩

/-- **A lookup in a renamed table.** -/
theorem find?_rename (k : κ) : (t.rename f hρ hkey).find? (ρ k) = (t.find? k).map f := by
  have hcomp : ((fun b => decide (key' b = ρ k)) ∘ f) = fun a => decide (key a = k) := by
    funext a
    simp [hkey, hρ.eq_iff]
  rw [find?, rename, List.find?_map, hcomp]
  rfl

end Rename

/-! ### Tables alike -/

section Related

variable {R : α → α → Prop} {t u : Table key}

/-- Two tables whose records are related one to one, in their order. -/
def Related (R : α → α → Prop) (t u : Table key) : Prop := List.Forall₂ R t.records u.records

omit [DecidableEq κ] in
theorem Related.refl (hR : ∀ a, R a a) (t : Table key) : Related R t t :=
  List.forall₂_same.mpr fun a _ => hR a

omit [DecidableEq κ] in
/-- What is the same of related records is the same of the tables. -/
theorem Related.map_filter {β : Type*} (h : Related R t u) {p : α → Bool} {f : α → β}
    (hp : ∀ a b, R a b → p a = p b) (hf : ∀ a b, R a b → f a = f b) :
    (t.records.filter p).map f = (u.records.filter p).map f := by
  rw [Related] at h
  generalize t.records = l at h
  generalize u.records = m at h
  induction h with
  | nil => rfl
  | cons hab _ ih =>
    rw [List.filter_cons, List.filter_cons, hp _ _ hab]
    split
    · rw [List.map_cons, List.map_cons, hf _ _ hab, ih]
    · exact ih

variable (hkey : ∀ a b, R a b → key a = key b)

include hkey

/-- **A lookup in related tables** finds related records, or none. Two states that differ in what
nobody may see are compared by it. -/
theorem Related.find? (h : Related R t u) (k : κ) :
    (t.find? k = none ∧ u.find? k = none) ∨
      ∃ a b, t.find? k = some a ∧ u.find? k = some b ∧ R a b := by
  rw [Related] at h
  rw [Table.find?, Table.find?]
  generalize t.records = l at h
  generalize u.records = m at h
  induction h with
  | nil => exact Or.inl ⟨rfl, rfl⟩
  | @cons a b l m hab _ ih =>
    by_cases hk : key a = k
    · refine Or.inr ⟨a, b, List.find?_cons_of_pos (decide_eq_true hk),
        List.find?_cons_of_pos (decide_eq_true ?_), hab⟩
      exact (hkey a b hab).symm.trans hk
    · have hk' : key b ≠ k := fun heq => hk ((hkey a b hab).trans heq)
      rw [List.find?_cons_of_neg (by simpa using hk), List.find?_cons_of_neg (by simpa using hk')]
      exact ih

/-- Related records are stored. -/
theorem Related.put (h : Related R t u) {a b : α} (hab : R a b) :
    Related R (t.put a) (u.put b) := by
  have hcontains : t.contains (key a) = u.contains (key b) := by
    rw [contains, contains, ← hkey a b hab]
    rcases h.find? hkey (key a) with ⟨ht, hu⟩ | ⟨c, d, ht, hu, -⟩
    · rw [ht, hu]
    · rw [ht, hu]
      rfl
  rw [Related, Table.put, Table.put]
  dsimp only
  rw [← hcontains]
  split
  · rw [List.forall₂_map_left_iff, List.forall₂_map_right_iff]
    refine List.Forall₂.imp (fun c d hcd => ?_) h
    rw [← hkey a b hab, ← hkey c d hcd]
    split
    · exact hab
    · exact hcd
  · exact List.rel_append h (List.Forall₂.cons hab List.Forall₂.nil)

/-- Related records are dropped. -/
theorem Related.remove (h : Related R t u) (k : κ) : Related R (t.remove k) (u.remove k) := by
  rw [Related] at h
  rw [Related, Table.remove, Table.remove]
  dsimp only
  generalize t.records = l at h
  generalize u.records = m at h
  induction h with
  | nil => exact List.Forall₂.nil
  | cons hab _ ih =>
    rw [List.filter_cons, List.filter_cons, hkey _ _ hab]
    split
    · exact List.Forall₂.cons hab ih
    · exact ih

end Related

/-- The table of pairs. -/
abbrev Dict (κ ν : Type*) := Table (Prod.fst : κ × ν → κ)

namespace Dict

/-- The value of a key. -/
def get? (d : Dict κ ν) (k : κ) : Option ν := (d.find? k).map Prod.snd

/-- Give a key a value. -/
def set (d : Dict κ ν) (k : κ) (v : ν) : Dict κ ν := d.put (k, v)

theorem get?_set (d : Dict κ ν) (k k' : κ) (v : ν) :
    (d.set k v).get? k' = if k' = k then some v else d.get? k' := by
  rw [get?, set, find?_put]
  split
  · rfl
  · rfl

theorem get?_remove (d : Dict κ ν) (k k' : κ) :
    get? (d.remove k) k' = if k' = k then none else d.get? k' := by
  rw [get?, find?_remove]
  split
  · rfl
  · rfl

@[simp] theorem get?_empty (k : κ) : get? (empty : Dict κ ν) k = none := rfl

end Dict

end Table
