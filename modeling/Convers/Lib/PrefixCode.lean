import Mathlib

/-!
# Prefix codes read lazily

A code tree (`PrefixCode.CodeTree`) is walked bit by bit from its root; a symbol
stands at a leaf. A *lazy* reader emits the symbol of a leaf in a step of its own,
without taking a bit, and walks on from the root.

`PrefixCode.LazyReader` says what one step of such a loop does, and
`PrefixCode.LazyReader.decodes` is what follows for a whole message: on a stream
that starts with the codes of some symbols, a loop that stops at their number ends
with those symbols, at the position behind their last bit, after one step a bit
and one a symbol.
-/

namespace PrefixCode

variable {ν σ ρ : Type*}

/-- A code tree, by its nodes. -/
structure CodeTree (ν σ : Type*) where
  /-- Where every walk starts. -/
  root : ν
  /-- The child of a node by a bit. -/
  child : ν → Bool → ν
  /-- The symbol of a leaf. -/
  symbol : ν → Option σ

namespace CodeTree

variable [DecidableEq ν] (T : CodeTree ν σ)

/-- Where the bits lead from a node, through inner nodes and never back to the
root. -/
def descend : ν → List Bool → Option ν
  | n, [] => some n
  | n, b :: bs =>
    if (T.symbol n).isSome ∨ T.child n b = T.root then none else descend (T.child n b) bs

/-- The bits of a symbol lead from the root to its leaf. -/
def Codes (code : σ → List Bool) : Prop :=
  ∀ s, ∃ n, T.descend T.root (code s) = some n ∧ T.symbol n = some s

variable {T}

/-- A walk that goes on starts at an inner node. -/
theorem descend_cons {n m : ν} {b : Bool} {bs : List Bool}
    (h : T.descend n (b :: bs) = some m) :
    T.symbol n = none ∧ T.child n b ≠ T.root ∧ T.descend (T.child n b) bs = some m := by
  rw [descend] at h
  split at h
  · cases h
  · rename_i hs
    rw [not_or] at hs
    exact ⟨by simpa using hs.1, hs.2, h⟩

end CodeTree

/-- Where the code of a symbol stands in a message. -/
theorem getD_flatMap {code : σ → List Bool} {ss : List σ} {n : ℕ} {s : σ} (hs : ss[n]? = some s)
    {j : ℕ} (hj : j < (code s).length) :
    (ss.flatMap code).getD (((ss.take n).flatMap code).length + j) false =
      (code s).getD j false := by
  obtain ⟨hn, rfl⟩ := List.getElem?_eq_some_iff.mp hs
  have hsplit : ss = ss.take n ++ ss[n] :: ss.drop (n + 1) := by simp
  conv_lhs => rw [List.getD_eq_getElem?_getD]; arg 1; arg 1; rw [hsplit]
  rw [List.flatMap_append, List.flatMap_cons, List.getElem?_append_right (by omega),
    Nat.add_sub_cancel_left, List.getElem?_append_left hj, List.getD_eq_getElem?_getD]

/-- The code of one more symbol. -/
theorem length_flatMap_take_succ (code : σ → List Bool) {ss : List σ} {n : ℕ} {s : σ}
    (hs : ss[n]? = some s) :
    ((ss.take (n + 1)).flatMap code).length =
      ((ss.take n).flatMap code).length + (code s).length := by
  rw [List.take_add_one, hs]
  simp

/-- The steps a lazy reader takes for some symbols: one a bit and one a symbol. -/
def steps (code : σ → List Bool) (ss : List σ) : ℕ :=
  (ss.map fun s => (code s).length + 1).sum

/-- What one step of a lazy reader does. The loop has a step budget, a node, a
position in the stream and the symbols read so far; it wants `size` of them, and
may read `limit` bits. -/
structure LazyReader (T : CodeTree ν σ) (bit : ℕ → Bool) (limit size : ℕ)
    (loop : ℕ → ν → ℕ → List σ → ρ) (done : ℕ → List σ → ρ) : Prop where
  /-- At an inner node the next bit is taken. -/
  inner : ∀ g n p out, T.symbol n = none → T.child n (bit p) ≠ T.root → p < limit →
    loop (g + 1) n p out = loop g (T.child n (bit p)) (p + 1) out
  /-- At a leaf its symbol is emitted, and no bit is taken. -/
  leaf : ∀ g n p out s, T.symbol n = some s → out.length + 1 < size →
    loop (g + 1) n p out = loop g T.root p (out ++ [s])
  /-- The last symbol ends the loop. -/
  last : ∀ g n p out s, T.symbol n = some s → out.length + 1 = size →
    loop (g + 1) n p out = done p (out ++ [s])

namespace LazyReader

variable [DecidableEq ν] {T : CodeTree ν σ} {bit : ℕ → Bool} {limit size : ℕ}
  {loop : ℕ → ν → ℕ → List σ → ρ} {done : ℕ → List σ → ρ}
  (hloop : LazyReader T bit limit size loop done)

include hloop

/-- Walking the bits of a code takes one step a bit. -/
theorem descends {n m : ν} {bs : List Bool} (hwalk : T.descend n bs = some m) {p : ℕ}
    (hbits : ∀ i (h : i < bs.length), bit (p + i) = bs[i]) (hlimit : p + bs.length ≤ limit)
    (g : ℕ) (out : List σ) :
    loop (bs.length + g) n p out = loop g m (p + bs.length) out := by
  induction bs generalizing n p with
  | nil =>
    obtain rfl : n = m := Option.some.inj hwalk
    simp
  | cons b bs ih =>
    obtain ⟨hinner, hroot, hwalk⟩ := CodeTree.descend_cons hwalk
    have hb : bit p = b := hbits 0 (Nat.succ_pos _)
    rw [List.length_cons] at hlimit ⊢
    rw [show bs.length + 1 + g = (bs.length + g) + 1 by omega,
      hloop.inner _ _ _ _ hinner (hb ▸ hroot) (by omega), hb,
      ih hwalk (fun i hi => ?_) (by omega), show p + 1 + bs.length = p + (bs.length + 1) by omega]
    rw [show p + 1 + i = p + (i + 1) by omega]
    exact hbits (i + 1) (by simpa using hi)

/-- **A lazy reader reads a coded message.** The reader looks one bit ahead at most, and needs no
end mark: it knows how many symbols there are to be. -/
theorem decodes {code : σ → List Bool} (hcode : T.Codes code) {ss : List σ} (hne : ss ≠ [])
    {p : ℕ} (hbits : ∀ i (h : i < (ss.flatMap code).length), bit (p + i) = (ss.flatMap code)[i])
    (hlimit : p + (ss.flatMap code).length ≤ limit) (out : List σ)
    (hsize : out.length + ss.length = size) {g : ℕ} (hg : steps code ss ≤ g) :
    loop g T.root p out = done (p + (ss.flatMap code).length) (out ++ ss) := by
  induction ss generalizing p out g with
  | nil => exact absurd rfl hne
  | cons s ss ih =>
    obtain ⟨leafNode, hwalk, hsym⟩ := hcode s
    simp only [List.flatMap_cons, List.length_append] at hlimit
    obtain ⟨g', rfl⟩ : ∃ g', g = (code s).length + (g' + 1) := by
      refine ⟨g - ((code s).length + 1), ?_⟩
      simp only [steps, List.map_cons, List.sum_cons] at hg
      omega
    have hg' : steps code ss ≤ g' := by
      simp only [steps, List.map_cons, List.sum_cons] at hg ⊢
      omega
    have hhead : ∀ i (h : i < (code s).length), bit (p + i) = (code s)[i] := by
      intro i hi
      rw [hbits i (by simp only [List.flatMap_cons, List.length_append]; omega)]
      simp [List.getElem_append_left hi]
    rw [hloop.descends hwalk hhead (by omega)]
    rw [List.length_cons] at hsize
    rcases eq_or_ne ss [] with rfl | hss
    · rw [hloop.last _ _ _ _ _ hsym (by simpa using hsize)]
      simp
    · have hpos : 0 < ss.length := List.length_pos_iff.mpr hss
      rw [hloop.leaf _ _ _ _ _ hsym (by omega),
        ih hss (fun i hi => ?_) (by omega) _ (by simp; omega) hg']
      · simp [Nat.add_assoc]
      · rw [Nat.add_assoc, hbits _ (by simp only [List.flatMap_cons, List.length_append]; omega)]
        simp [List.getElem_append_right]

end LazyReader

end PrefixCode
