import Convers.Protocol.Compression

/-!
# The decoder, with its accesses checked

`Convers.Compression.tryDecodeFrame` says what a frame decodes to. The code it stands
for walks a tree of 513 nodes on bits anyone may have sent, fills a buffer by an index
of its own, and is ended by nothing but a count of its turns. This file follows that
code access by access: `Convers.Compression.decodeStep` is one turn of its inner or of
its outer loop, in which every access to a table, to the frame and to the output buffer
is checked.

What carries the accesses is `Convers.Compression.DecodeVars.Safe`: the walk is at a
node of the tree, and the output index is the number of symbols written, of which one
at least is missing. Each turn of the inner loop keeps it, is followed by at most one
turn of the outer loop, and uses up the guard.

* `Convers.Compression.decodeFrame_eq`: on every frame the code ends, without a fault,
  in what `Convers.Compression.tryDecodeFrame` says.
* `Convers.Compression.wellFormed_tryDecodeFrame`: what is decoded is as long as the
  header says, and takes between one byte and all of them.
-/

namespace Convers

namespace Compression

open BitString HuffmanTables

/-- A checked access to a table, which is given in rows. -/
def fetchEntry (table : List (List ℕ)) (n : ℕ) : Except Fault ℕ :=
  match table.flatten[n]? with
  | some v => .ok v
  | none => .error .indexOutOfRange

/-- The variables of `TryDecodeFrame`. -/
structure DecodeVars where
  /-- The output buffer. -/
  output : List UInt8
  srcIndex : ℕ
  outIndex : ℕ
  written : ℕ
  decod : ℕ
  bitmask : UInt8
  remaining : ℕ
  /-- The turns of the inner loop that are left. -/
  guard : ℕ
  currentByte : UInt8

/-- What `TryDecodeFrame` returns, with its two `out` parameters. -/
structure DecodeResult where
  success : Bool
  decoded : List UInt8
  bytesConsumed : ℕ
  deriving DecidableEq

/-- `false`, with the `out` parameters as they were set at the start. -/
def DecodeResult.failed : DecodeResult := ⟨false, [], 0⟩

/-- The byte of the frame at an index; past the end it is zero. -/
def readByte (frame : List UInt8) (srcIndex : ℕ) : Except Fault UInt8 :=
  if srcIndex < frame.length then fetch frame srcIndex else .ok 0

/-- The end of a turn of the inner loop: a bit is consumed unless the walk is at the root. -/
def shiftMask (st : DecodeVars) : DecodeVars :=
  if st.decod ≠ 0 then { st with bitmask := st.bitmask >>> 1 } else st

/-- A turn of the inner loop, on a bit of the current byte. -/
def innerTurn (frame : List UInt8) (destLen : ℕ) (st : DecodeVars) :
    Except Fault (Turn DecodeVars DecodeResult) :=
  if st.guard = 0 then .ok (.finished .failed)
  else do
    let st := { st with guard := st.guard - 1 }
    let oneBit : Bool := st.currentByte &&& st.bitmask ≠ 0
    let node2 ← fetchEntry decodeNode2 st.decod
    if node2 = 0 then do
      let symbol ← fetchEntry decodeNode1 st.decod
      let output ← store st.output st.outIndex (UInt8.ofNat symbol)
      let st := { st with output := output, outIndex := st.outIndex + 1, written := st.written + 1 }
      if st.written ≥ destLen then
        let consumed := if st.bitmask = 0x80 then st.srcIndex else st.srcIndex + 1
        .ok (.finished ⟨true, st.output, min consumed frame.length⟩)
      else .ok (.more (shiftMask { st with decod := 0 }))
    else do
      let decod ←
        if oneBit then fetchEntry decodeNode2 st.decod else fetchEntry decodeNode1 st.decod
      .ok (.more (shiftMask { st with decod := decod }))

/-- The end of a turn of the outer loop, and the byte of the next one. -/
def outerTurn (frame : List UInt8) (st : DecodeVars) :
    Except Fault (Turn DecodeVars DecodeResult) :=
  let st := { st with bitmask := 0x80, srcIndex := st.srcIndex + 1 }
  if st.remaining = 0 then .ok (.finished .failed)
  else do
    let st := { st with remaining := st.remaining - 1 }
    let currentByte ← readByte frame st.srcIndex
    .ok (.more { st with currentByte := currentByte })

/-- One turn of the two loops of `TryDecodeFrame`. -/
def decodeStep (frame : List UInt8) (destLen : ℕ) (st : DecodeVars) :
    Except Fault (Turn DecodeVars DecodeResult) :=
  if st.bitmask > 0 then innerTurn frame destLen st else outerTurn frame st

/-- The loops of `TryDecodeFrame`, within a step budget. -/
def decodeSteps (frame : List UInt8) (destLen : ℕ) : ℕ → DecodeVars → Except Fault DecodeResult
  | 0, _ => .error .outOfSteps
  | n + 1, st => do
    match ← decodeStep frame destLen st with
    | .finished result => .ok result
    | .more st => decodeSteps frame destLen n st

/-- `Compression.TryDecodeFrame`, access by access, within a step budget. -/
def decodeFrame (budget : ℕ) (frame : List UInt8) : Except Fault DecodeResult :=
  if frame.length < 2 then .ok .failed
  else do
    let header ← fetch frame 0
    let destLen := header.toNat + 1
    let srcLen := frame.length - 1
    if destLen = 256 then .ok ⟨true, frame.drop 1, frame.length⟩
    else do
      let currentByte ← readByte frame 1
      decodeSteps frame destLen budget
        { output := List.replicate destLen 0, srcIndex := 1, outIndex := 0, written := 0,
          decod := 0, bitmask := 0x80, remaining := srcLen, guard := (destLen + 2) * 16,
          currentByte := currentByte }

/-! ### The tree -/

/-- Every node but a leaf leads to nodes of the tree, by evaluation. -/
theorem children_lt : ∀ n < 513, entry decodeNode2 n < 513 ∧
    (entry decodeNode2 n ≠ 0 → entry decodeNode1 n < 513) := by decide +kernel

/-- The tables row after row are their entries in order, by evaluation. -/
theorem flatten_decodeNode :
    decodeNode1.flatten = (List.range 513).map (entry decodeNode1) ∧
      decodeNode2.flatten = (List.range 513).map (entry decodeNode2) := by decide +kernel

theorem fetchEntry_decodeNode1 {n : ℕ} (hn : n < 513) :
    fetchEntry decodeNode1 n = .ok (entry decodeNode1 n) := by
  rw [fetchEntry, flatten_decodeNode.1, List.getElem?_map, List.getElem?_range hn]
  rfl

theorem fetchEntry_decodeNode2 {n : ℕ} (hn : n < 513) :
    fetchEntry decodeNode2 n = .ok (entry decodeNode2 n) := by
  rw [fetchEntry, flatten_decodeNode.2, List.getElem?_map, List.getElem?_range hn]
  rfl

/-- A byte of the frame is read in range, and is zero past the end. -/
theorem readByte_eq (frame : List UInt8) (i : ℕ) : readByte frame i = .ok (frame.getD i 0) := by
  rw [readByte, fetch]
  split_ifs with h
  · rfl
  · rw [List.getD_eq_getElem?_getD, List.getElem?_eq_none (by omega), Option.getD_none]

/-! ### What a turn keeps -/

/-- **What carries the accesses**: the walk is at a node of the tree, and the output index
is the number of symbols written, of which one at least is missing. -/
structure DecodeVars.Safe (frame : List UInt8) (destLen : ℕ) (st : DecodeVars) : Prop where
  node : st.decod < 513
  length : st.output.length = destLen
  outIndex : st.outIndex = st.written
  room : st.written < destLen
  current : st.currentByte = frame.getD st.srcIndex 0

/-- The decoder's state behind the variables: the buffer up to what is written. -/
def DecodeVars.state (st : DecodeVars) : DecodeState :=
  { srcIndex := st.srcIndex, bitmask := st.bitmask, remaining := st.remaining, decod := st.decod,
    output := st.output.take st.written }

/-- What the code returns, from what is decoded. -/
def DecodeResult.ofOption : Option (List UInt8 × ℕ) → DecodeResult
  | none => failed
  | some (decoded, consumed) => ⟨true, decoded, consumed⟩

variable {frame : List UInt8} {destLen g : ℕ} {st : DecodeVars}

/-- The shift of the mask concerns nothing but the mask. -/
theorem safe_shiftMask : (shiftMask st).Safe frame destLen ↔ st.Safe frame destLen := by
  rw [shiftMask]
  split
  · exact ⟨fun h => ⟨h.node, h.length, h.outIndex, h.room, h.current⟩,
      fun h => ⟨h.node, h.length, h.outIndex, h.room, h.current⟩⟩
  · exact Iff.rfl

theorem guard_shiftMask : (shiftMask st).guard = st.guard := by
  rw [shiftMask]
  split <;> rfl

/-- **A turn of the inner loop** is in range. It ends with the last symbol, or goes on as the
decoder does. The guard counts the turns, which is why the budget below is enough. -/
theorem innerTurn_spec (h : st.Safe frame destLen) (hguard : st.guard = g + 1) :
    (∃ decoded consumed, innerTurn frame destLen st = .ok (.finished ⟨true, decoded, consumed⟩) ∧
        decodeLoop frame destLen (g + 1) st.state = some (decoded, consumed)) ∨
      ∃ st', innerTurn frame destLen st = .ok (.more (shiftMask st')) ∧ st'.Safe frame destLen ∧
        st'.guard = g ∧ decodeLoop frame destLen (g + 1) st.state =
          (consumeBit st'.state).bind (decodeLoop frame destLen g) := by
  obtain ⟨hnode, hlength, hindex, hroom, hcurrent⟩ := h
  have hwritten : st.state.output.length = st.written := by
    rw [DecodeVars.state, List.length_take]
    omega
  have hstore : ∀ b, store st.output st.outIndex b = .ok (st.output.set st.outIndex b) :=
    fun b => if_pos (by omega)
  -- the symbols behind the buffer, with the one that is written
  have htake : ∀ b,
      (st.output.set st.outIndex b).take (st.written + 1) = st.state.output ++ [b] := by
    intro b
    rw [DecodeVars.state, List.take_add_one, hindex, List.take_set_of_le (le_refl _),
      List.getElem?_set_self (by omega)]
    rfl
  rw [innerTurn, if_neg (by omega)]
  simp only [fetchEntry_decodeNode2 hnode, fetchEntry_decodeNode1 hnode, hstore, bind, Except.bind]
  by_cases hleaf : entry decodeNode2 st.decod = 0
  · rw [if_pos hleaf]
    by_cases hlast : st.written + 1 ≥ destLen
    · left
      refine ⟨_, _, if_pos hlast, ?_⟩
      rw [decodeLoop_last st.state hleaf (by omega), ← htake,
        List.take_of_length_le (by rw [List.length_set]; omega)]
      rfl
    · right
      refine ⟨{ st with
          guard := st.guard - 1, outIndex := st.outIndex + 1, written := st.written + 1, decod := 0,
          output := st.output.set st.outIndex (UInt8.ofNat (entry decodeNode1 st.decod)) },
        if_neg hlast, ⟨Nat.succ_pos _, ?_, ?_, ?_, hcurrent⟩, ?_, ?_⟩
      · rw [← hlength]
        exact List.length_set
      · simp only [hindex]
      · simp only
        omega
      · simp only
        omega
      · rw [decodeLoop_leaf st.state hleaf (by omega), ← htake]
        rfl
  · right
    rw [if_neg hleaf]
    obtain ⟨htwo, hone⟩ := children_lt st.decod hnode
    refine ⟨{ st with
        guard := st.guard - 1
        decod := decodeTree.child st.decod (decide (st.currentByte &&& st.bitmask ≠ 0)) },
      ?_, ⟨?_, hlength, hindex, hroom, hcurrent⟩, ?_, ?_⟩
    · split
      · rename_i hbit
        simp only [hbit]
        rfl
      · rename_i hbit
        simp only [Bool.eq_false_iff.mpr hbit]
        rfl
    · simp only [decodeTree]
      split
      · exact htwo
      · exact hone hleaf
    · simp only
      omega
    · exact decodeLoop_inner st.state hleaf (by rw [hcurrent]; rfl)

/-- A turn of the outer loop is in range, and goes on to the next byte, if there may be one. -/
theorem outerTurn_spec (h : st.Safe frame destLen) :
    (st.remaining = 0 ∧ outerTurn frame st = .ok (.finished .failed)) ∨
      st.remaining ≠ 0 ∧ ∃ st', outerTurn frame st = .ok (.more st') ∧ st'.Safe frame destLen ∧
        st'.guard = st.guard ∧ st'.state = { st.state with
          bitmask := 0x80, srcIndex := st.srcIndex + 1, remaining := st.remaining - 1 } := by
  by_cases hrest : st.remaining = 0
  · exact Or.inl ⟨hrest, if_pos hrest⟩
  · refine Or.inr ⟨hrest, { st with
      bitmask := 0x80, srcIndex := st.srcIndex + 1, remaining := st.remaining - 1,
      currentByte := frame.getD (st.srcIndex + 1) 0 },
      ?_, ⟨h.node, h.length, h.outIndex, h.room, rfl⟩, rfl, rfl⟩
    rw [outerTurn, if_neg hrest]
    simp only [readByte_eq, bind, Except.bind]

/-- What the decoder makes of the end of a turn, by the variables. -/
theorem consumeBit_state (st : DecodeVars) :
    consumeBit st.state =
      if (shiftMask st).bitmask > 0 then some (shiftMask st).state
      else if (shiftMask st).remaining = 0 then none
      else some { (shiftMask st).state with
        bitmask := 0x80, srcIndex := (shiftMask st).srcIndex + 1,
        remaining := (shiftMask st).remaining - 1 } := by
  rw [consumeBit, shiftMask]
  by_cases hroot : st.decod ≠ 0
  · rw [if_pos hroot]
    have hroot' : st.state.decod ≠ 0 := hroot
    simp only [if_pos hroot']
    rfl
  · rw [if_neg hroot]
    have hroot' : ¬st.state.decod ≠ 0 := hroot
    simp only [if_neg hroot']
    rfl

/-- **The run of the two loops**: it ends within two turns for each turn the guard allows, in what
the decoder returns. So the loops of the source and the recursion over the guard compute the same.
-/
theorem decodeSteps_eq (h : st.Safe frame destLen) (hmask : st.bitmask > 0)
    (hguard : st.guard = g) {budget : ℕ} (hbudget : 2 * g < budget) :
    decodeSteps frame destLen budget st =
      .ok (.ofOption (decodeLoop frame destLen g st.state)) := by
  induction g generalizing st budget with
  | zero =>
    obtain ⟨n, rfl⟩ : ∃ n, budget = n + 1 := ⟨budget - 1, by omega⟩
    rw [decodeSteps, decodeStep, if_pos hmask, innerTurn, if_pos hguard]
    rfl
  | succ g ih =>
    obtain ⟨n, rfl⟩ : ∃ n, budget = n + 2 := ⟨budget - 2, by omega⟩
    rw [decodeSteps, decodeStep, if_pos hmask]
    rcases innerTurn_spec h hguard with ⟨decoded, consumed, hturn, hloop⟩ |
        ⟨st', hturn, hsafe, hguard', hloop⟩
    · rw [hturn, hloop]
      rfl
    · have hsafe' := safe_shiftMask.mpr hsafe
      rw [← guard_shiftMask] at hguard'
      rw [hturn, hloop, consumeBit_state]
      simp only [bind, Except.bind]
      split_ifs with hmask' hrest
      · exact ih hsafe' hmask' hguard' (by omega)
      -- the byte is used up, and a turn of the outer loop follows
      · rcases outerTurn_spec hsafe' with ⟨-, hout⟩ | ⟨hrest', -⟩
        · rw [decodeSteps, decodeStep, if_neg hmask', hout]
          rfl
        · exact absurd hrest hrest'
      · rcases outerTurn_spec hsafe' with ⟨hrest', -⟩ | ⟨-, st'', hout, hsafe'', hguard'', hstate⟩
        · exact absurd hrest' hrest
        · rw [decodeSteps, decodeStep, if_neg hmask', hout]
          simp only [bind, Except.bind, Option.bind]
          rw [← hstate]
          have hmask'' : st''.bitmask > 0 := by
            have : st''.bitmask = 0x80 := congrArg DecodeState.bitmask hstate
            rw [this]
            decide
          exact ih hsafe'' hmask'' (hguard''.trans hguard') (by omega)

/-! ### Every frame -/

/-- The turns any frame is decoded within. -/
def decodeBudget : ℕ := 2 * ((255 + 2) * 16) + 1

/-- **The code ends on every frame, without a fault**, in what the decoder returns. With it every
result on the decoder holds of the code with its indexing. -/
theorem decodeFrame_eq (frame : List UInt8) {budget : ℕ} (hbudget : decodeBudget ≤ budget) :
    decodeFrame budget frame = .ok (.ofOption (tryDecodeFrame frame)) := by
  rw [decodeFrame, tryDecodeFrame]
  split_ifs with hshort
  · rfl
  · have hheader : fetch frame 0 = .ok (frame.getD 0 0) := if_pos (by omega)
    have hbyte := (frame.getD 0 0).toNat_lt
    simp only [hheader, readByte_eq, bind, Except.bind]
    split_ifs with hstored
    · rfl
    · have hmask : (0x80 : UInt8) > 0 := by decide
      have hturns : 2 * (((frame.getD 0 0).toNat + 1 + 2) * 16) < budget := by
        rw [decodeBudget] at hbudget
        omega
      exact decodeSteps_eq ⟨Nat.succ_pos _, List.length_replicate, rfl, Nat.succ_pos _, rfl⟩
        hmask rfl hturns

/-! ### What is decoded -/

/-- **What a result of the decoder may be**: nothing decoded and nothing taken, or as many
bytes as the header says, all that are left for a stored frame, out of at least one byte
of the frame and at most all of them. -/
def DecodeResult.WellFormed (frame : List UInt8) (r : DecodeResult) : Prop :=
  r.success = false ∧ r.bytesConsumed = 0 ∨
    r.success = true ∧ 0 < r.bytesConsumed ∧ r.bytesConsumed ≤ frame.length ∧
      r.decoded.length =
        if frame.getD 0 0 = storedMarker then frame.length - 1 else (frame.getD 0 0).toNat + 1

/-- The end of a turn leaves the symbols alone. -/
theorem output_of_consumeBit {st st' : DecodeState} (h : consumeBit st = some st') :
    st'.output = st.output := by
  rw [consumeBit] at h
  split_ifs at h <;> cases h <;> rfl

/-- The loop ends with all symbols, and within the frame. -/
theorem decodeLoop_length {frame decoded : List UInt8} {destLen guard consumed : ℕ}
    {st : DecodeState} (hst : st.output.length < destLen)
    (h : decodeLoop frame destLen guard st = some (decoded, consumed)) :
    decoded.length = destLen ∧ consumed ≤ frame.length := by
  induction guard generalizing st with
  | zero => cases h
  | succ guard ih =>
    have hnext : ∀ st', (consumeBit st').bind (decodeLoop frame destLen guard) =
        some (decoded, consumed) → st'.output.length < destLen →
          decoded.length = destLen ∧ consumed ≤ frame.length := by
      intro st' hrest hst'
      rcases hconsume : consumeBit st' with _ | st''
      · rw [hconsume] at hrest
        cases hrest
      · rw [hconsume] at hrest
        exact ih (by rwa [output_of_consumeBit hconsume]) hrest
    by_cases hleaf : entry decodeNode2 st.decod = 0
    · rcases Nat.lt_or_ge (st.output.length + 1) destLen with hmore | hlast
      · rw [decodeLoop_leaf st hleaf hmore] at h
        exact hnext _ h (by rwa [List.length_append])
      · rw [decodeLoop_last st hleaf (by omega)] at h
        cases h
        rw [List.length_append, List.length_singleton]
        omega
    · rw [decodeLoop_inner st hleaf rfl] at h
      exact hnext _ h hst

/-- **What is decoded is as long as the header says.** A frame that a stranger sends is decoded to
that many bytes, or to nothing. -/
theorem wellFormed_tryDecodeFrame (frame : List UInt8) :
    (DecodeResult.ofOption (tryDecodeFrame frame)).WellFormed frame := by
  rcases hdecode : tryDecodeFrame frame with _ | ⟨decoded, consumed⟩
  · exact Or.inl ⟨rfl, rfl⟩
  · have hpos := consumed_pos hdecode
    have hheader : (frame.getD 0 0).toNat + 1 = 256 ↔ frame.getD 0 0 = storedMarker := by
      rw [← UInt8.toNat_inj]
      exact Nat.succ_inj
    rw [tryDecodeFrame] at hdecode
    simp only [hheader] at hdecode
    split_ifs at hdecode with hshort hstored
    · cases hdecode
      refine Or.inr ⟨rfl, hpos, le_refl _, ?_⟩
      rw [if_pos hstored, ← List.length_drop]
      rfl
    · obtain ⟨hlength, hle⟩ := decodeLoop_length (Nat.succ_pos _) hdecode
      refine Or.inr ⟨rfl, hpos, hle, ?_⟩
      rw [if_neg hstored]
      exact hlength

end Compression

end Convers
