import Mathlib

/-!
# Flooding on a tree

Every site of a tree keeps a log of what it has dealt with: what it says itself, and what it
hears at one of its ports, one for each neighbour. It passes on to a neighbour all of its log
but for what it heard from there, and a link delivers in order, so that what a site has heard
at a port is the beginning of what the neighbour behind the port has passed on (`Flood`).

`Flood.interleaves_log` is what comes of it, however the deliveries fall: the log of a site is
an interleaving, with nothing lost, doubled or out of order, of what it says itself and of a
beginning of what each other site says, and of all that each site says once every link is
drained. The argument goes along directed edges: what `x` has passed on to `y` comes from the
sites that lie behind `x` on the way from `y`, and these fall apart into `x` and the sites
behind each other neighbour of it (`Flood.Toward`).
-/

namespace Flood

variable {V P α κ ι : Type*}

/-! ### Interleavings -/

section Interleavings

variable [DecidableEq κ] [DecidableEq ι]

/-- What is under a tag, in order. -/
def ofTag (k : κ) (l : List (κ × α)) : List α := (l.filter (·.1 = k)).map Prod.snd

@[simp] theorem ofTag_nil (k : κ) : ofTag k ([] : List (κ × α)) = [] := rfl

theorem ofTag_cons (k : κ) (p : κ × α) (l : List (κ × α)) :
    ofTag k (p :: l) = (if p.1 = k then [p.2] else []) ++ ofTag k l := by
  rw [ofTag, List.filter_cons]
  by_cases hp : p.1 = k
  · simp [ofTag, hp]
  · simp [ofTag, hp]

theorem ofTag_append (k : κ) (l m : List (κ × α)) :
    ofTag k (l ++ m) = ofTag k l ++ ofTag k m := by
  rw [ofTag, List.filter_append, List.map_append]
  rfl

theorem mem_ofTag {k : κ} {a : α} {l : List (κ × α)} : a ∈ ofTag k l ↔ (k, a) ∈ l := by
  rw [ofTag, List.mem_map]
  constructor
  · rintro ⟨⟨k', a'⟩, hmem, rfl⟩
    obtain ⟨hl, hk⟩ := List.mem_filter.mp hmem
    obtain rfl : k' = k := of_decide_eq_true hk
    exact hl
  · intro hl
    exact ⟨(k, a), List.mem_filter.mpr ⟨hl, decide_eq_true rfl⟩, rfl⟩

/-- A beginning of a list has a beginning of what is under a tag. -/
theorem ofTag_mono (k : κ) {l m : List (κ × α)} (h : l <+: m) : ofTag k l <+: ofTag k m := by
  obtain ⟨rest, rfl⟩ := h
  rw [ofTag_append]
  exact List.prefix_append _ _

/-- What one source says is under its tag only. -/
theorem ofTag_map_mk (k k' : κ) (l : List α) :
    ofTag k' (l.map fun a => (k, a)) = if k = k' then l else [] := by
  induction l with
  | nil => exact (ite_self _).symm
  | cons a l ih =>
    rw [List.map_cons, ofTag_cons, ih]
    by_cases hk : k = k'
    · simp [hk]
    · simp [hk]

/-- The list is an interleaving of the parts. -/
def Interleaves (parts : κ → List α) (l : List α) : Prop :=
  ∃ m : List (κ × α), m.map Prod.snd = l ∧ ∀ k, ofTag k m = parts k

omit [DecidableEq ι] in
/-- What is interleaved is in some part. -/
theorem Interleaves.mem_iff {parts : κ → List α} {l : List α} (h : Interleaves parts l) {a : α} :
    a ∈ l ↔ ∃ k, a ∈ parts k := by
  obtain ⟨m, rfl, hparts⟩ := h
  simp only [← hparts, mem_ofTag, List.mem_map, Prod.exists, exists_eq_right]

omit [DecidableEq ι] in
/-- **Only one part matters** where the others change nothing. A log of many sites can so be read as
that of the one site that is of interest. -/
theorem Interleaves.foldl_eq {β : Type*} {f : β → α → β} {parts : κ → List α} {l : List α}
    (h : Interleaves parts l) (k : κ) (hother : ∀ k' ≠ k, ∀ a ∈ parts k', ∀ b, f b a = b) (b : β) :
    l.foldl f b = (parts k).foldl f b := by
  obtain ⟨m, rfl, hparts⟩ := h
  rw [← hparts k]
  have hquiet : ∀ p ∈ m, p.1 ≠ k → ∀ b, f b p.2 = b := fun p hp hne =>
    hother p.1 hne p.2 (hparts p.1 ▸ mem_ofTag.mpr hp)
  clear hparts hother
  induction m generalizing b with
  | nil => rfl
  | cons p m ih =>
    have hrest := fun b => ih b fun q hq => hquiet q (List.mem_cons_of_mem _ hq)
    rw [List.map_cons, List.foldl_cons, hrest, ofTag_cons]
    by_cases hk : p.1 = k
    · rw [if_pos hk]
      rfl
    · rw [if_neg hk, hquiet p List.mem_cons_self hk, List.nil_append]

omit [DecidableEq ι] in
/-- A list whose parts are tagged further can be tagged further itself. -/
theorem exists_refine (l : List (κ × α)) (sub : κ → List (ι × α))
    (hsub : ∀ k, (sub k).map Prod.snd = ofTag k l) :
    ∃ m : List (κ × ι × α), m.map (fun p => p.2.2) = l.map Prod.snd ∧
      ∀ k, ofTag k m = sub k := by
  induction l generalizing sub with
  | nil => exact ⟨[], rfl, fun k => (List.map_eq_nil_iff.mp (hsub k)).symm⟩
  | cons p l ih =>
    obtain ⟨k, a⟩ := p
    -- the first of the part `k` is the first of the list
    obtain ⟨⟨i, b⟩, rest, hk, hb, hrest⟩ : ∃ q rest, sub k = q :: rest ∧ q.2 = a ∧
        rest.map Prod.snd = ofTag k l := by
      have hhead := hsub k
      rw [ofTag_cons, if_pos rfl, List.singleton_append] at hhead
      exact List.map_eq_cons_iff.mp hhead
    obtain rfl : b = a := hb
    obtain ⟨m, hm, hparts⟩ := ih (Function.update sub k rest) fun k' => by
      rcases eq_or_ne k' k with rfl | hne
      · rw [Function.update_self, hrest]
      · rw [Function.update_of_ne hne, hsub k', ofTag_cons, if_neg (Ne.symm hne),
          List.nil_append]
    refine ⟨(k, i, b) :: m, by rw [List.map_cons, List.map_cons, hm], fun k' => ?_⟩
    rw [ofTag_cons, hparts k']
    rcases eq_or_ne k' k with rfl | hne
    · rw [if_pos rfl, Function.update_self, hk, List.singleton_append]
    · rw [if_neg (Ne.symm hne), Function.update_of_ne hne, List.nil_append]

/-- What has the inner tag `i` is what has it in the one part in which it occurs. -/
theorem ofTag_map_snd {m : List (κ × ι × α)} {i : ι} {k : κ}
    (honly : ∀ k' ≠ k, ∀ p ∈ ofTag k' m, p.1 ≠ i) :
    ofTag i (m.map Prod.snd) = ofTag i (ofTag k m) := by
  induction m with
  | nil => rfl
  | cons p m ih =>
    have hrest : ∀ k' ≠ k, ∀ q ∈ ofTag k' m, q.1 ≠ i := fun k' hk' q hq =>
      honly k' hk' q (by rw [ofTag_cons]; exact List.mem_append_right _ hq)
    rw [List.map_cons, ofTag_cons, ofTag_cons k, ofTag_append, ih hrest]
    refine congrArg (· ++ _) ?_
    by_cases hk : p.1 = k
    · rw [if_pos hk, ofTag_cons, ofTag_nil, List.append_nil]
    · have hi : p.2.1 ≠ i := honly p.1 hk p.2 (mem_ofTag.mpr List.mem_cons_self)
      rw [if_neg hk, if_neg hi, ofTag_nil]

end Interleavings

/-! ### Ways in a tree -/

section Ways

variable {G : SimpleGraph V} {x y z i : V}

/-- The way from `y` to `i` begins with the step to `x`. -/
def Toward (G : SimpleGraph V) (y x i : V) : Prop :=
  ∃ p : G.Walk y i, p.IsPath ∧ ¬p.Nil ∧ p.snd = x

theorem toward_of_adj (h : G.Adj y x) : Toward G y x x := by
  refine ⟨.cons h .nil, ?_, by simp, by simp⟩
  simpa using h.ne

theorem Toward.adj (h : Toward G y x i) : G.Adj y x := by
  obtain ⟨p, -, hnil, rfl⟩ := h
  exact p.adj_snd hnil

theorem not_toward_self : ¬Toward G x z x := by
  rintro ⟨p, hp, hnil, -⟩
  exact hnil (SimpleGraph.Walk.isPath_iff_nil.mp hp)

theorem exists_toward (hG : G.IsTree) (hne : y ≠ i) : ∃ x, Toward G y x i := by
  obtain ⟨p, hp, -⟩ := hG.existsUnique_path y i
  exact ⟨p.snd, p, hp, fun hnil => hne hnil.eq, rfl⟩

theorem Toward.unique (hG : G.IsTree) (hx : Toward G y x i) (hz : Toward G y z i) : x = z := by
  obtain ⟨p, hp, -, rfl⟩ := hx
  obtain ⟨q, hq, -, rfl⟩ := hz
  rw [(hG.existsUnique_path y i).unique hp hq]

/-- A way that does not begin with the step back is the end of a longer way. -/
theorem Toward.cons (hG : G.IsTree) (h : Toward G x z i) (hyx : G.Adj y x) (hne : z ≠ y) :
    Toward G y x i := by
  obtain ⟨p, hp, -, rfl⟩ := h
  refine ⟨.cons hyx p, ?_, by simp, by simp⟩
  rw [SimpleGraph.Walk.cons_isPath_iff]
  exact ⟨hp, fun hmem => hne (hG.isAcyclic.eq_snd_of_adj_start hp hyx.symm hmem).symm⟩

/-- A way ends after its first step, or goes on with a step that is not back. -/
theorem Toward.eq_or (h : Toward G y x i) : i = x ∨ ∃ z ≠ y, Toward G x z i := by
  obtain ⟨p, hp, hnil, hsnd⟩ := h
  cases p with
  | nil => exact absurd .nil hnil
  | cons hadj q =>
    rw [SimpleGraph.Walk.snd_cons] at hsnd
    subst hsnd
    rw [SimpleGraph.Walk.cons_isPath_iff] at hp
    by_cases hq : q.Nil
    · exact Or.inl hq.eq.symm
    · exact Or.inr ⟨q.snd, fun hback => hp.2 (hback ▸ q.getVert_mem_support 1), q, hp.1, hq, rfl⟩

end Ways

end Flood

/-! ### The logs -/

/-- The logs of the sites of a graph, whose links deliver in order. -/
structure Flood {V : Type*} (G : SimpleGraph V) (P α : Type*) [DecidableEq P] where
  /-- The port behind which a neighbour is. -/
  port : V → V → P
  /-- What a site has dealt with: what it says, and what it hears at a port. -/
  log : V → List (Option P × α)
  port_injective : ∀ {x y z}, G.Adj x y → G.Adj x z → port x y = port x z → y = z
  /-- Every port in use is that of a neighbour. -/
  heard : ∀ {x q a}, (some q, a) ∈ log x → ∃ y, G.Adj x y ∧ port x y = q
  /-- What is heard is the beginning of what the neighbour has passed on. -/
  inOrder : ∀ {x y}, G.Adj x y → Flood.ofTag (some (port y x)) (log y) <+:
    ((log x).filter (·.1 ≠ some (port x y))).map Prod.snd

namespace Flood

variable {V P α : Type*} [DecidableEq P] [DecidableEq V] {G : SimpleGraph V} (F : Flood G P α)

/-- What a site says. -/
def said (x : V) : List α := ofTag none (F.log x)

/-- What a site passes on to a neighbour: all but what it heard from there. -/
def passed (x y : V) : List α := ((F.log x).filter (·.1 ≠ some (F.port x y))).map Prod.snd

/-- Everything that is passed on is heard. -/
def Drained : Prop := ∀ x y, G.Adj x y → ofTag (some (F.port y x)) (F.log y) = F.passed x y

/-- Where some of what `x` deals with comes from: the sites `S`, each in order; all that `x` says
itself, and all that another site says once the links are drained. -/
def ComesFrom (x : V) (l : List α) (S : V → Prop) : Prop :=
  ∃ m : List (V × α), m.map Prod.snd = l ∧ (∀ p ∈ m, S p.1) ∧
    (∀ i, ofTag i m <+: F.said i) ∧ ∀ i, S i → i = x ∨ F.Drained → ofTag i m = F.said i

variable {F} {x y : V}

/-- The beginning of what a neighbour has passed on comes from where that comes from. -/
theorem ComesFrom.of_inOrder (h : F.ComesFrom x (F.passed x y) (Toward G y x))
    (hadj : G.Adj x y) :
    F.ComesFrom y (ofTag (some (F.port y x)) (F.log y)) (Toward G y x) := by
  obtain ⟨m, hm, hsites, hparts, hdrained⟩ := h
  have hprefix := F.inOrder hadj
  refine ⟨m.take (ofTag (some (F.port y x)) (F.log y)).length, ?_, fun p hp => ?_, fun i => ?_,
    fun i hi hdone => ?_⟩
  · rw [List.map_take, hm]
    exact (List.prefix_iff_eq_take.mp hprefix).symm
  · exact hsites p (List.mem_of_mem_take hp)
  · exact (ofTag_mono i (List.take_prefix _ _)).trans (hparts i)
  · obtain rfl | hd := hdone
    · exact absurd hi not_toward_self
    · rw [hd x y hadj, ← hm, List.length_map, List.take_length, hdrained i hi (Or.inr hd)]

/-- Parts that come from different sites, put together. -/
theorem ComesFrom.merge {κ : Type*} [DecidableEq κ] {l : List (κ × α)} {S : κ → V → Prop}
    (hS : ∀ k, F.ComesFrom x (ofTag k l) (S k)) (hone : ∀ {k k' i}, S k i → S k' i → k = k') :
    F.ComesFrom x (l.map Prod.snd) fun i => ∃ k, S k i := by
  choose sub hsub hsites hparts hdrained using hS
  obtain ⟨m, hm, hm'⟩ := exists_refine l sub hsub
  have hmem {p : V × α} (hp : p ∈ m.map Prod.snd) : ∃ k, S k p.1 := by
    obtain ⟨⟨k, q⟩, hq, rfl⟩ := List.mem_map.mp hp
    exact ⟨k, hsites k q (hm' k ▸ mem_ofTag.mpr hq)⟩
  have hpart {k : κ} {i : V} (hk : S k i) : ofTag i (m.map Prod.snd) = ofTag i (sub k) := by
    rw [← hm' k]
    refine ofTag_map_snd fun k' hne p hp hpi => hne ?_
    rw [hm' k'] at hp
    exact hone (hpi ▸ hsites k' p hp) hk
  refine ⟨m.map Prod.snd, by rw [List.map_map]; exact hm, fun p hp => hmem hp, fun i => ?_,
    fun i ⟨k, hk⟩ hdone => ?_⟩
  · by_cases hi : ∃ k, S k i
    · obtain ⟨k, hk⟩ := hi
      exact hpart hk ▸ hparts k i
    · have hnil : ofTag i (m.map Prod.snd) = [] :=
        List.eq_nil_iff_forall_not_mem.mpr fun a ha => hi (hmem (mem_ofTag.mp ha))
      exact hnil ▸ List.nil_prefix
  · rw [hpart hk]
    exact hdrained k i hk hdone

theorem ofTag_filter {κ : Type*} [DecidableEq κ] (k : κ) (keep : κ → Bool) (l : List (κ × α)) :
    ofTag k (l.filter fun p => keep p.1) = if keep k then ofTag k l else [] := by
  rw [ofTag, List.filter_filter]
  by_cases hk : keep k = true
  · rw [if_pos hk, ofTag]
    refine congrArg _ (List.filter_congr fun p _ => ?_)
    by_cases hp : p.1 = k
    · simp [hp, hk]
    · simp [hp]
  · rw [if_neg hk, List.map_eq_nil_iff, List.filter_eq_nil_iff]
    rintro p - hp
    rw [Bool.and_eq_true, decide_eq_true_eq] at hp
    exact hk (hp.1 ▸ hp.2)

variable (F x) in
/-- The sites whose words a site has of its own, or gets at a port. -/
def Behind (keep : Option P → Bool) (k : Option P) (i : V) : Prop :=
  k = none ∧ i = x ∨ ∃ z, k = some (F.port x z) ∧ keep k = true ∧ Toward G x z i

/-- What comes in at one port, or is said. -/
theorem comesFrom_ofTag (keep : Option P → Bool) (hown : keep none = true)
    (hfrom : ∀ z, G.Adj x z → keep (some (F.port x z)) = true →
      F.ComesFrom z (F.passed z x) (Toward G x z)) (k : Option P) :
    F.ComesFrom x (ofTag k ((F.log x).filter fun p => keep p.1)) (F.Behind x keep k) := by
  rw [ofTag_filter]
  rcases k with _ | q
  · refine ⟨(F.said x).map fun a => (x, a), ?_, fun p hp => ?_, fun i => ?_, fun i hi _ => ?_⟩
    · rw [if_pos hown, List.map_map]
      exact List.map_id _
    · obtain ⟨a, -, rfl⟩ := List.mem_map.mp hp
      exact Or.inl ⟨rfl, rfl⟩
    · rw [ofTag_map_mk]
      split
      · rename_i hi
        rw [hi]
      · exact List.nil_prefix
    · obtain ⟨-, rfl⟩ | ⟨z, hz, -⟩ := hi
      · rw [ofTag_map_mk, if_pos rfl]
      · cases hz
  · by_cases hused : keep (some q) = true ∧ ∃ z, G.Adj x z ∧ F.port x z = q
    · obtain ⟨hk, z, hadj, rfl⟩ := hused
      obtain ⟨s, hs, hsites, hparts, hdrained⟩ := (hfrom z hadj hk).of_inOrder hadj.symm
      refine ⟨s, by rw [if_pos hk, hs], fun p hp => ?_, hparts, fun i hi hdone => ?_⟩
      · exact Or.inr ⟨z, rfl, hk, hsites p hp⟩
      · obtain ⟨hbad, -⟩ | ⟨z', hz', -, hway⟩ := hi
        · cases hbad
        · obtain rfl := F.port_injective hadj hway.adj (Option.some.inj hz')
          exact hdrained i hway hdone
    · -- nothing is heard there
      refine ⟨[], ?_, by simp, fun i => List.nil_prefix, fun i hi _ => ?_⟩
      · split
        · rename_i hk
          refine (List.eq_nil_iff_forall_not_mem.mpr fun a ha => ?_).symm
          exact hused ⟨hk, F.heard (mem_ofTag.mp ha)⟩
        · rfl
      · obtain ⟨hbad, -⟩ | ⟨z, hz, hk, hway⟩ := hi
        · cases hbad
        · exact absurd ⟨hk, z, hway.adj, (Option.some.inj hz).symm⟩ hused

omit [DecidableEq V] in
/-- A site is behind one port only. -/
theorem Behind.unique (hG : G.IsTree) {keep : Option P → Bool} {k k' : Option P} {i : V}
    (hk : F.Behind x keep k i) (hk' : F.Behind x keep k' i) : k = k' := by
  obtain ⟨rfl, rfl⟩ | ⟨z, rfl, -, hz⟩ := hk
  · obtain ⟨rfl, -⟩ | ⟨z, -, -, hz⟩ := hk'
    · rfl
    · exact absurd hz not_toward_self
  · obtain ⟨-, rfl⟩ | ⟨z', rfl, -, hz'⟩ := hk'
    · exact absurd hz not_toward_self
    · rw [hz.unique hG hz']

/-- **What a site deals with**, of its own and from some of the neighbours, comes from itself and
from the sites behind these neighbours. On a tree nothing comes by two ways, so the parts of the
neighbours are joined without a clash. -/
theorem ComesFrom.of_neighbours (hG : G.IsTree) (keep : Option P → Bool) (hown : keep none = true)
    (hfrom : ∀ z, G.Adj x z → keep (some (F.port x z)) = true →
      F.ComesFrom z (F.passed z x) (Toward G x z)) :
    F.ComesFrom x (((F.log x).filter fun p => keep p.1).map Prod.snd) fun i =>
      ∃ k, F.Behind x keep k i :=
  .merge (comesFrom_ofTag keep hown hfrom) (Behind.unique hG)

theorem ComesFrom.congr {l : List α} {S S' : V → Prop} (h : F.ComesFrom x l S)
    (hS : ∀ i, S i ↔ S' i) : F.ComesFrom x l S' := by
  rwa [show S' = S from funext fun i => propext (hS i).symm]

/-- **What is passed on along an edge** comes from the sites on that side of it. The log of a site
is put together from what its edges bring, so this is the heart of the matter. -/
theorem comesFrom_passed [Finite V] (hG : G.IsTree) (hadj : G.Adj x y) :
    F.ComesFrom x (F.passed x y) (Toward G y x) := by
  -- there are fewer sites behind the edges that lead here
  induction hn : {i | Toward G y x i}.ncard using Nat.strong_induction_on generalizing x y with
  | _ n ih =>
    refine (ComesFrom.of_neighbours hG (· ≠ some (F.port x y)) (by simp)
      fun z hz hne => ih _ ?_ hz.symm rfl).congr fun i => ?_
    · have hzy : z ≠ y := by
        rintro rfl
        simp at hne
      rw [← hn]
      refine Set.ncard_lt_ncard ⟨fun i hi => hi.cons hG hadj.symm hzy, fun hsub => ?_⟩
      exact not_toward_self (hsub (toward_of_adj hadj.symm) : Toward G x z x)
    · constructor
      · rintro ⟨k, ⟨-, rfl⟩ | ⟨z, rfl, hne, hway⟩⟩
        · exact toward_of_adj hadj.symm
        · refine hway.cons hG hadj.symm ?_
          rintro rfl
          simp at hne
      · intro h
        obtain rfl | ⟨z, hzy, hway⟩ := h.eq_or
        · exact ⟨none, Or.inl ⟨rfl, rfl⟩⟩
        · refine ⟨_, Or.inr ⟨z, rfl, ?_, hway⟩⟩
          simpa using fun heq => hzy (F.port_injective hway.adj hadj heq)

/-- **Flooding on a tree is exactly once and in order.** The log of a site is an interleaving of
what it says and of a beginning of what each other site says, and of all that they say once every
link is drained. Nothing is asked of the order in which the links deliver, so any interleaving of
them is covered. -/
theorem interleaves_log [Finite V] (hG : G.IsTree) (x : V) :
    ∃ parts : V → List α, Interleaves parts ((F.log x).map Prod.snd) ∧ parts x = F.said x ∧
      (∀ i, parts i <+: F.said i) ∧ (F.Drained → parts = F.said) := by
  have hall : (F.log x).filter (fun p => (fun _ => true : Option P → Bool) p.1) = F.log x := by
    simp
  obtain ⟨m, hm, -, hparts, hdrained⟩ := ComesFrom.of_neighbours (F := F) (x := x) hG
    (fun _ => true) rfl fun z hz _ => comesFrom_passed hG hz.symm
  rw [hall] at hm
  refine ⟨fun i => ofTag i m, ⟨m, hm, fun _ => rfl⟩, ?_, hparts, fun hd => funext fun i => ?_⟩
  · exact hdrained x ⟨none, Or.inl ⟨rfl, rfl⟩⟩ (Or.inl rfl)
  · refine hdrained i ?_ (Or.inr hd)
    rcases eq_or_ne i x with rfl | hne
    · exact ⟨none, Or.inl ⟨rfl, rfl⟩⟩
    · obtain ⟨z, hz⟩ := exists_toward hG hne.symm
      exact ⟨_, Or.inr ⟨z, rfl, rfl, hz⟩⟩

end Flood
