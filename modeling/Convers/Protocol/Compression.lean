import Convers.Protocol.HuffmanTables
import Convers.Text

/-!
# The link compression

`Convers.Compression.encodeFrame` packs up to 255 bytes into a frame and
`Convers.Compression.tryDecodeFrame` unpacks one, with the number of bytes it
took. Every array access of the encoder is checked here, so that a frame is
returned only if none of them is out of range.

The encoder is a loop over bits. What it has written after `k` bits is
`Convers.Compression.Packed`, where it stands in its source is
`Convers.Compression.Reading`, and one turn keeps both or ends in one of two ways:
a stored copy, as soon as the code is no shorter than the source, or the finished
frame (`Convers.Compression.IsFrame`).

The decoder is a lazy reader of the code tree in the sense of
`PrefixCode.LazyReader`: `Convers.Compression.lazyReader` checks its steps, at a
position given by the byte index and the bit mask.

* `Convers.Compression.tryDecodeFrame_encodeFrame`: decoding an encoded frame
  gives the source and takes the frame exactly, and a coded frame is taken exactly
  out of any longer buffer.
-/

namespace Convers

namespace Compression

open BitString HuffmanTables

/-- `StoredMarker`: the header of a stored frame. -/
def storedMarker : UInt8 := 255

/-- `MaxFrameLength`. -/
def maxFrameLength : ℕ := 255

/-! ### The encoder -/

/-- A checked array write. -/
def store (bs : List UInt8) (i : ℕ) (b : UInt8) : Except Fault (List UInt8) :=
  if i < bs.length then .ok (bs.set i b) else .error .indexOutOfRange

/-- A checked array read. -/
def fetch (bs : List UInt8) (i : ℕ) : Except Fault UInt8 :=
  if i < bs.length then .ok (bs.getD i 0) else .error .indexOutOfRange

/-- The variables of `EncodeFrame`. -/
structure EncodeState where
  /-- The scratch buffer: the header and the payload. -/
  dest : List UInt8
  /-- The number of payload bytes that are full. -/
  destLen : ℕ
  /-- The index of the payload byte being filled. -/
  destPtr : ℕ
  /-- The bit of that byte to write next. -/
  bit8 : ℕ
  /-- The index of the source byte being coded. -/
  srcIndex : ℕ
  /-- Its code. -/
  huffCode : ℕ
  /-- The length of its code. -/
  huffLen : ℕ
  /-- The bit of its code to write next. -/
  bit16 : ℕ
  /-- The number of source bytes that are coded. -/
  written : ℕ

/-- One turn of a loop: on with a state, or out with a result. -/
inductive Turn (σ ρ : Type) where
  | more (st : σ)
  | finished (result : ρ)

/-- The bit of the code, written by an *or* where it is set. -/
def writeBit (st : EncodeState) : Except Fault (List UInt8) :=
  if st.huffCode &&& mask16.getD st.bit16 0 ≠ 0 then do
    let b ← fetch st.dest st.destPtr
    store st.dest st.destPtr (b ||| mask st.bit8)
  else .ok st.dest

/-- The step to the next bit of the payload. A full byte is closed; coding is given
up when the payload is as long as the source. -/
def closeByte (source : List UInt8) (st : EncodeState) :
    Except Fault (Turn EncodeState (List UInt8)) :=
  let st := { st with bit8 := st.bit8 + 1 }
  if st.bit8 > 7 then
    let st := { st with destPtr := st.destPtr + 1, destLen := st.destLen + 1 }
    if st.destLen ≥ source.length then .ok (.finished (storedMarker :: source))
    else do
      let dest ← store st.dest st.destPtr 0
      .ok (.more { st with dest := dest, bit8 := 0 })
  else .ok (.more st)

/-- The end of `EncodeFrame`: the header, and the buffer cut to its length. -/
def finish (source : List UInt8) (st : EncodeState) : Except Fault (List UInt8) := do
  let destLen := if st.bit8 ≠ 0 then st.destLen + 1 else st.destLen
  let destLen := destLen + 1
  let dest ← store st.dest 0 (UInt8.ofNat (source.length - 1))
  if destLen ≤ dest.length then .ok (dest.take destLen) else .error .argumentOutOfRange

/-- The step to the next bit of the code, at its end to the next source byte. -/
def nextBit (source : List UInt8) (st : EncodeState) :
    Except Fault (Turn EncodeState (List UInt8)) :=
  let st := { st with bit16 := st.bit16 + 1 }
  if st.bit16 = st.huffLen then
    let st := { st with srcIndex := st.srcIndex + 1, written := st.written + 1 }
    if st.written = source.length then do
      let frame ← finish source st
      .ok (.finished frame)
    else do
      let b ← fetch source st.srcIndex
      .ok (.more { st with
        huffCode := entry encodeCode b.toNat, huffLen := entry encodeLen b.toNat, bit16 := 0 })
  else .ok (.more st)

/-- One turn of the loop of `EncodeFrame`. -/
def encodeStep (source : List UInt8) (st : EncodeState) :
    Except Fault (Turn EncodeState (List UInt8)) := do
  let dest ← writeBit st
  match ← closeByte source { st with dest := dest } with
  | .finished stored => .ok (.finished stored)
  | .more st => nextBit source st

/-- The loop of `EncodeFrame`, within a step budget. -/
def encodeLoop (source : List UInt8) : ℕ → EncodeState → Except Fault (List UInt8)
  | 0, _ => .error .outOfSteps
  | n + 1, st => do
    match ← encodeStep source st with
    | .finished frame => .ok frame
    | .more st => encodeLoop source n st

/-- `Compression.EncodeFrame`. A code has at most sixteen bits, which bounds the
turns of its loop. -/
def encodeFrame (source : List UInt8) : Except Fault (List UInt8) :=
  if source.length = 0 ∨ source.length > maxFrameLength then .error .argument
  else do
    let dest ← store (List.replicate (source.length + 2) 0) 1 0
    let b ← fetch source 0
    encodeLoop source (16 * source.length)
      { dest := dest, destLen := 0, destPtr := 1, bit8 := 0, srcIndex := 0,
        huffCode := entry encodeCode b.toNat, huffLen := entry encodeLen b.toNat, bit16 := 0,
        written := 0 }

/-! ### The decoder -/

/-- The variables of `TryDecodeFrame`. -/
structure DecodeState where
  /-- The index of the byte being read. -/
  srcIndex : ℕ
  /-- The mask of the bit to read next. -/
  bitmask : UInt8
  /-- The number of payload bytes still to begin. -/
  remaining : ℕ
  /-- The node of the tree. -/
  decod : ℕ
  /-- The bytes decoded so far. -/
  output : List UInt8

/-- The end of a turn of the inner loop: the bit is consumed unless the walk is at
the root, and a byte that is used up is left for the next one, if there may be one. -/
def consumeBit (st : DecodeState) : Option DecodeState :=
  let st := if st.decod ≠ 0 then { st with bitmask := st.bitmask >>> 1 } else st
  if st.bitmask > 0 then some st
  else if st.remaining = 0 then none
  else some { st with
    bitmask := 0x80, srcIndex := st.srcIndex + 1, remaining := st.remaining - 1 }

/-- The loop of `TryDecodeFrame`, by its guard; a byte past the end reads as zero. -/
def decodeLoop (frame : List UInt8) (destLen : ℕ) : ℕ → DecodeState → Option (List UInt8 × ℕ)
  | 0, _ => none
  | guard + 1, st =>
    let currentByte := frame.getD st.srcIndex 0
    let oneBit : Bool := currentByte &&& st.bitmask ≠ 0
    if entry decodeNode2 st.decod = 0 then
      let output := st.output ++ [UInt8.ofNat (entry decodeNode1 st.decod)]
      if output.length ≥ destLen then
        let consumed := if st.bitmask = 0x80 then st.srcIndex else st.srcIndex + 1
        some (output, min consumed frame.length)
      else do
        let st ← consumeBit { st with output := output, decod := 0 }
        decodeLoop frame destLen guard st
    else do
      let decod := if oneBit then entry decodeNode2 st.decod else entry decodeNode1 st.decod
      let st ← consumeBit { st with decod := decod }
      decodeLoop frame destLen guard st

/-- `Compression.TryDecodeFrame`: the decoded bytes and the number of bytes taken. -/
def tryDecodeFrame (frame : List UInt8) : Option (List UInt8 × ℕ) :=
  if frame.length < 2 then none
  else
    let destLen := (frame.getD 0 0).toNat + 1
    if destLen = 256 then some (frame.drop 1, frame.length)
    else
      decodeLoop frame destLen ((destLen + 2) * 16)
        { srcIndex := 1, bitmask := 0x80, remaining := frame.length - 1, decod := 0, output := [] }

/-! ### What the encoder writes -/

variable {source : List UInt8} {st : EncodeState} {k : ℕ}

/-- The bits of a message: the codes of its bytes. -/
def message (source : List UInt8) : List Bool := source.flatMap codeBits

/-- The scratch buffer holds the first `k` bits of the message behind the header,
and no bit after them. -/
def Holds (source dest : List UInt8) (k : ℕ) : Prop :=
  dest.length = source.length + 2 ∧
    ∀ i, bitAt dest (8 + i) = (decide (i < k) && (message source).getD i false)

/-- The output side of the loop after `k` bits. -/
structure Packed (source : List UInt8) (st : EncodeState) (k : ℕ) : Prop where
  holds : Holds source st.dest k
  destPtr : st.destPtr = 1 + k / 8
  destLen : st.destLen = k / 8
  bit8 : st.bit8 = k % 8
  /-- Coding is not given up. -/
  short : k < 8 * source.length

/-- The input side of the loop before bit `k`. -/
structure Reading (source : List UInt8) (st : EncodeState) (k : ℕ) : Prop where
  inSource : st.srcIndex < source.length
  written : st.written = st.srcIndex
  huffCode : st.huffCode = entry encodeCode (source.getD st.srcIndex 0).toNat
  huffLen : st.huffLen = (codeBits (source.getD st.srcIndex 0)).length
  bit16 : st.bit16 < st.huffLen
  position : k = (message (source.take st.srcIndex)).length + st.bit16

/-- A coded frame: the header, and the message in the least number of bytes. -/
structure IsFrame (source frame : List UInt8) : Prop where
  short : (message source).length < 8 * source.length
  length : frame.length = 1 + ((message source).length + 7) / 8
  header : frame.getD 0 0 = UInt8.ofNat (source.length - 1)
  bits : ∀ i, i < (message source).length → bitAt frame (8 + i) = (message source).getD i false

/-! ### One turn of the encoder -/

theorem getElem?_of_reading (h : Reading source st k) :
    source[st.srcIndex]? = some (source.getD st.srcIndex 0) := by
  rw [List.getD_eq_getElem?_getD, List.getElem?_eq_getElem h.inSource, Option.getD_some]

/-- The bit the code is at is the bit of the message. -/
theorem message_getD (h : Reading source st k) :
    (message source).getD k false = codeBit (source.getD st.srcIndex 0) st.bit16 := by
  have hbit : st.bit16 < (codeBits (source.getD st.srcIndex 0)).length := h.huffLen ▸ h.bit16
  rw [h.position, message, message, PrefixCode.getD_flatMap (getElem?_of_reading h) hbit,
    List.getD_eq_getElem _ _ hbit]
  simp [codeBits]

/-- The message has a bit at the position of the code. -/
theorem lt_length_message (h : Reading source st k) : k < (message source).length := by
  have hbit : st.bit16 < (codeBits (source.getD st.srcIndex 0)).length := h.huffLen ▸ h.bit16
  have hsucc := PrefixCode.length_flatMap_take_succ codeBits (getElem?_of_reading h)
  have hle : (message (source.take (st.srcIndex + 1))).length ≤ (message source).length := by
    conv_rhs => rw [← List.take_append_drop (st.srcIndex + 1) source]
    rw [message, message, List.flatMap_append, List.length_append]
    omega
  have hpos := h.position
  simp only [message] at hle hpos ⊢
  omega

/-- **Writing a bit** is in range, and adds the bit of the message. The index of the byte is below
the end of the buffer because the message is shorter than the source. -/
theorem writeBit_spec (hp : Packed source st k) (hr : Reading source st k) :
    ∃ dest, writeBit st = .ok dest ∧ Holds source dest (k + 1) := by
  obtain ⟨hlen, hbits⟩ := hp.holds
  have hk := hp.short
  have hbit := message_getD hr
  have hptr : st.destPtr = (8 + k) / 8 := by rw [hp.destPtr]; omega
  have hb8 : st.bit8 = (8 + k) % 8 := by rw [hp.bit8]; omega
  have hin : (8 + k) / 8 < st.dest.length := by omega
  rw [codeBit, ← hr.huffCode] at hbit
  rw [writeBit]
  split
  · rename_i hset
    rw [decide_eq_true hset] at hbit
    refine ⟨st.dest.set st.destPtr (st.dest.getD st.destPtr 0 ||| mask st.bit8), ?_, ?_, ?_⟩
    · rw [fetch, if_pos (hptr ▸ hin)]
      exact if_pos (hptr ▸ hin)
    · rw [List.length_set, hlen]
    · intro i
      rw [hptr, hb8, bitAt_set_mask hin, hbits]
      rcases lt_trichotomy i k with hi | rfl | hi
      · simp [hi, show i < k + 1 by omega]
        omega
      · simp [← hbit]
      · simp [show ¬ i < k by omega, show ¬ i < k + 1 by omega, show i ≠ k by omega]
  · rename_i hset
    rw [decide_eq_false hset] at hbit
    refine ⟨st.dest, rfl, hlen, fun i => ?_⟩
    rw [hbits]
    rcases lt_trichotomy i k with hi | rfl | hi
    · simp [hi, show i < k + 1 by omega]
    · rw [hbit]
      simp
    · simp [show ¬ i < k by omega, show ¬ i < k + 1 by omega]

/-- **Closing a byte**: coding is given up, or the output side goes on. It gives up as soon as the
output has as many bytes as the source. -/
theorem closeByte_spec (hp : Packed source st k) {dest : List UInt8}
    (hdest : Holds source dest (k + 1)) :
    (8 * source.length ≤ k + 1 ∧
        closeByte source { st with dest := dest } = .ok (.finished (storedMarker :: source))) ∨
      ∃ st', closeByte source { st with dest := dest } = .ok (.more st') ∧
        Packed source st' (k + 1) ∧ st' = { st with
          dest := st'.dest, destPtr := st'.destPtr, destLen := st'.destLen, bit8 := st'.bit8 } := by
  have hk := hp.short
  obtain ⟨hlen, hbits⟩ := hdest
  have h8 := hp.bit8
  have hptr := hp.destPtr
  have hdl := hp.destLen
  simp only [closeByte]
  by_cases hfull : st.bit8 + 1 > 7
  · rw [if_pos hfull]
    by_cases hgive : st.destLen + 1 ≥ source.length
    · exact Or.inl ⟨by omega, if_pos hgive⟩
    · right
      have hin : st.destPtr + 1 < dest.length := by omega
      rw [if_neg hgive, store, if_pos hin]
      refine ⟨_, rfl, ⟨⟨by rw [List.length_set, hlen], fun i => ?_⟩, ?_, ?_, ?_, ?_⟩, rfl⟩
      · simp only
        rw [bitAt_set hin]
        split
        · simp [show ¬ i < k + 1 by omega]
        · exact hbits i
      · simp only; omega
      · simp only; omega
      · simp only; omega
      · omega
  · rw [if_neg hfull]
    right
    refine ⟨_, rfl, ⟨⟨hlen, hbits⟩, ?_, ?_, ?_, ?_⟩, rfl⟩
    · simp only; omega
    · simp only; omega
    · simp only; omega
    · omega

/-- The finished frame carries the message. -/
theorem finish_spec (hp : Packed source st k) (hk : k = (message source).length) :
    ∃ frame, finish source st = .ok frame ∧ IsFrame source frame := by
  obtain ⟨hlen, hbits⟩ := hp.holds
  have hshort := hp.short
  have h8 := hp.bit8
  have hdl := hp.destLen
  have hend : (if st.bit8 ≠ 0 then st.destLen + 1 else st.destLen) + 1 = 1 + (k + 7) / 8 := by
    split <;> omega
  refine ⟨(st.dest.set 0 (UInt8.ofNat (source.length - 1))).take (1 + (k + 7) / 8), ?_, ?_⟩
  · simp only [finish, hend]
    rw [store, if_pos (by omega)]
    exact if_pos (by simp only [List.length_set]; omega)
  · refine ⟨by omega, ?_, ?_, fun i hi => ?_⟩
    · rw [List.length_take, List.length_set, hlen, ← hk]
      omega
    · rw [List.getD_eq_getElem?_getD, List.getElem?_take_of_lt (by omega),
        List.getElem?_set_self (by omega), Option.getD_some]
    · rw [bitAt_take (by omega), bitAt_set (by omega), if_neg (by omega), hbits,
        decide_eq_true (by omega), Bool.true_and]

/-- **The next bit of the code**: the frame is finished, or both sides go on. The code bits of a
symbol and the bytes of the output are walked in step by it. -/
theorem nextBit_spec (hp : Packed source st (k + 1)) (hr : Reading source st k) :
    (k + 1 = (message source).length ∧
        ∃ frame, nextBit source st = .ok (.finished frame) ∧ IsFrame source frame) ∨
      ∃ st', nextBit source st = .ok (.more st') ∧
        Packed source st' (k + 1) ∧ Reading source st' (k + 1) := by
  have hsucc := PrefixCode.length_flatMap_take_succ codeBits (getElem?_of_reading hr)
  have hpos := hr.position
  have hlen := hr.huffLen
  have hbit := hr.bit16
  simp only [message] at hpos
  simp only [nextBit]
  by_cases hend : st.bit16 + 1 = st.huffLen
  · rw [if_pos hend]
    by_cases hlast : st.written + 1 = source.length
    · left
      rw [if_pos hlast]
      have htotal : k + 1 = (message source).length := by
        have htake : source.take (st.srcIndex + 1) = source :=
          List.take_of_length_le (by rw [← hlast, hr.written])
        rw [htake] at hsucc
        simp only [message]
        omega
      have hp' : Packed source { st with
          bit16 := st.bit16 + 1, srcIndex := st.srcIndex + 1, written := st.written + 1 } (k + 1) :=
        ⟨hp.holds, hp.destPtr, hp.destLen, hp.bit8, hp.short⟩
      obtain ⟨frame, hframe, his⟩ := finish_spec hp' htotal
      refine ⟨htotal, frame, ?_, his⟩
      rw [hframe]
      rfl
    · right
      have hin : st.srcIndex + 1 < source.length := by
        have := hr.inSource
        have := hr.written
        omega
      rw [if_neg hlast, fetch, if_pos hin]
      refine ⟨_, rfl, ⟨hp.holds, hp.destPtr, hp.destLen, hp.bit8, hp.short⟩,
        ⟨hin, by simp [hr.written], rfl, ?_, ?_, ?_⟩⟩
      · exact (length_codeBits _).symm
      · rw [← length_codeBits]
        exact (length_codeBits_bounds _).1
      · simp only [message]
        omega
  · rw [if_neg hend]
    right
    refine ⟨_, rfl, ⟨hp.holds, hp.destPtr, hp.destLen, hp.bit8, hp.short⟩,
      ⟨hr.inSource, hr.written, hr.huffCode, hr.huffLen, ?_, ?_⟩⟩
    · simp only; omega
    · simp only [message]; omega

/-- **One turn of the encoder**: a stored copy where the code is no shorter than the
source, the finished frame behind the last bit, or one bit more. -/
theorem encodeStep_spec (hp : Packed source st k) (hr : Reading source st k) :
    (8 * source.length ≤ (message source).length ∧
        encodeStep source st = .ok (.finished (storedMarker :: source))) ∨
      (∃ frame, encodeStep source st = .ok (.finished frame) ∧ IsFrame source frame) ∨
      ∃ st', encodeStep source st = .ok (.more st') ∧
        Packed source st' (k + 1) ∧ Reading source st' (k + 1) := by
  obtain ⟨dest, hdest, hholds⟩ := writeBit_spec hp hr
  have hlt := lt_length_message hr
  rcases closeByte_spec hp hholds with ⟨hfull, hclose⟩ | ⟨st', hclose, hp', hst'⟩
  · refine Or.inl ⟨by omega, ?_⟩
    simp only [encodeStep, hdest, hclose, bind, Except.bind]
  · have hr' : Reading source st' k := by
      rw [hst']
      exact ⟨hr.inSource, hr.written, hr.huffCode, hr.huffLen, hr.bit16, hr.position⟩
    have hstep : encodeStep source st = nextBit source st' := by
      simp only [encodeStep, hdest, hclose, bind, Except.bind]
    rw [hstep]
    rcases nextBit_spec hp' hr' with ⟨-, h⟩ | h
    · exact Or.inr (Or.inl h)
    · exact Or.inr (Or.inr h)

/-- **The encoder's loop**: within a budget for the bits that are left it ends, in a stored copy or
in a coded frame. The induction is on the budget, with the two sides as its invariant. -/
theorem encodeLoop_spec {n : ℕ} (hn : (message source).length ≤ k + n) (hp : Packed source st k)
    (hr : Reading source st k) :
    ∃ frame, encodeLoop source n st = .ok frame ∧
      (8 * source.length ≤ (message source).length ∧ frame = storedMarker :: source ∨
        IsFrame source frame) := by
  induction n generalizing st k with
  | zero => exact absurd (lt_length_message hr) (by omega)
  | succ n ih =>
    rcases encodeStep_spec hp hr with ⟨hlong, h⟩ | ⟨frame, h, hframe⟩ | ⟨st', h, hp', hr'⟩
    · exact ⟨_, by simp only [encodeLoop, h, bind, Except.bind], Or.inl ⟨hlong, rfl⟩⟩
    · exact ⟨frame, by simp only [encodeLoop, h, bind, Except.bind], Or.inr hframe⟩
    · obtain ⟨frame, hloop, hframe⟩ := ih (by omega) hp' hr'
      exact ⟨frame, by simp only [encodeLoop, h, bind, Except.bind, hloop], hframe⟩

/-- A message is not longer than the step budget. -/
theorem length_message_le (source : List UInt8) :
    (message source).length ≤ 16 * source.length := by
  induction source with
  | nil => simp [message]
  | cons b source ih =>
    have hb := (length_codeBits_bounds b).2
    simp only [message, List.flatMap_cons, List.length_append, List.length_cons] at ih ⊢
    omega

/-- **The encoder** returns a stored copy exactly where the code is no shorter than the source, and
else the coded frame; it never leaves its scratch buffer. Everything that is said of frames below is
read off this description. -/
theorem encodeFrame_spec (hpos : 1 ≤ source.length) (hmax : source.length ≤ 255) :
    ∃ frame, encodeFrame source = .ok frame ∧
      (8 * source.length ≤ (message source).length ∧ frame = storedMarker :: source ∨
        IsFrame source frame) := by
  have hdest : ∀ i, bitAt (List.replicate (source.length + 2) 0) i = false := by
    intro i
    rw [bitAt, List.getD_eq_getElem?_getD, List.getElem?_replicate]
    split <;> simp
  rw [encodeFrame, if_neg (by rw [maxFrameLength]; omega), store,
    if_pos (by rw [List.length_replicate]; omega), fetch, if_pos (by omega)]
  refine encodeLoop_spec (k := 0) (by have := length_message_le source; omega)
    ⟨⟨by simp, fun i => ?_⟩, rfl, rfl, rfl, by omega⟩
    ⟨by simp only; omega, rfl, rfl, (length_codeBits _).symm, ?_, by simp [message]⟩
  · rw [bitAt_set (by rw [List.length_replicate]; omega)]
    split <;> simp [hdest]
  · rw [← length_codeBits]
    exact (length_codeBits_bounds _).1

/-! ### The decoder as a lazy reader -/

/-- The decoder at bit `p` of the payload, before a byte past the end. -/
def decodeAt (frame : List UInt8) (n p : ℕ) (out : List UInt8) : DecodeState :=
  { srcIndex := 1 + p / 8, bitmask := mask (p % 8), remaining := frame.length - 1 - p / 8,
    decod := n, output := out }

theorem mask_pos {j : ℕ} (hj : j < 8) : mask j > 0 := by
  interval_cases j <;> decide

theorem mask_shiftRight {j : ℕ} (hj : j < 8) : mask j >>> 1 = mask (j + 1) := by
  interval_cases j <;> decide

/-- At the root no bit is consumed. -/
theorem consumeBit_root (frame : List UInt8) (p : ℕ) (out : List UInt8) :
    consumeBit (decodeAt frame 0 p out) = some (decodeAt frame 0 p out) := by
  rw [consumeBit]
  exact if_pos (mask_pos (Nat.mod_lt p (by omega)))

/-- Anywhere else the bit is consumed, and there is a next one. -/
theorem consumeBit_inner {frame : List UInt8} {n p : ℕ} (hn : n ≠ 0)
    (hp : p < 8 * (frame.length - 1)) (out : List UInt8) :
    consumeBit { decodeAt frame 0 p out with decod := n } =
      some (decodeAt frame n (p + 1) out) := by
  have hmod : p % 8 < 8 := Nat.mod_lt p (by omega)
  have hshift := mask_shiftRight hmod
  simp only [consumeBit, decodeAt, if_pos hn, hshift]
  rcases Nat.lt_or_ge (p % 8 + 1) 8 with hlt | hge
  · rw [if_pos (mask_pos hlt), show (p + 1) / 8 = p / 8 by omega,
      show (p + 1) % 8 = p % 8 + 1 by omega]
  · rw [show p % 8 + 1 = 8 by omega, if_neg (by decide), if_neg (by omega)]
    rw [show (p + 1) / 8 = p / 8 + 1 by omega, show (p + 1) % 8 = 0 by omega,
      show frame.length - 1 - p / 8 - 1 = frame.length - 1 - (p / 8 + 1) by omega,
      show 1 + p / 8 + 1 = 1 + (p / 8 + 1) by omega]
    rfl

section Turns

variable {frame : List UInt8} {destLen g : ℕ} (st : DecodeState)

/-- A turn at an inner node. -/
theorem decodeLoop_inner (h : entry decodeNode2 st.decod ≠ 0) {b : Bool}
    (hb : decide (frame.getD st.srcIndex 0 &&& st.bitmask ≠ 0) = b) :
    decodeLoop frame destLen (g + 1) st =
      (consumeBit { st with decod := decodeTree.child st.decod b }).bind
        (decodeLoop frame destLen g) := by
  simp only [decodeLoop, if_neg h, hb]
  rfl

/-- A turn at a leaf, with more symbols to come. -/
theorem decodeLoop_leaf (h : entry decodeNode2 st.decod = 0)
    (hout : st.output.length + 1 < destLen) :
    decodeLoop frame destLen (g + 1) st =
      (consumeBit { st with
        output := st.output ++ [UInt8.ofNat (entry decodeNode1 st.decod)], decod := 0 }).bind
        (decodeLoop frame destLen g) := by
  simp only [decodeLoop, if_pos h]
  rw [if_neg (by rw [List.length_append, List.length_singleton]; omega)]
  rfl

/-- The turn of the last symbol. -/
theorem decodeLoop_last (h : entry decodeNode2 st.decod = 0)
    (hout : st.output.length + 1 = destLen) :
    decodeLoop frame destLen (g + 1) st =
      some (st.output ++ [UInt8.ofNat (entry decodeNode1 st.decod)],
        min (if st.bitmask = 0x80 then st.srcIndex else st.srcIndex + 1) frame.length) := by
  simp only [decodeLoop, if_pos h]
  rw [if_pos (by rw [List.length_append, List.length_singleton]; omega)]

end Turns

/-- What the tree says of a node is what the tables say. -/
theorem symbol_eq_some {n : ℕ} {s : UInt8} (h : decodeTree.symbol n = some s) :
    entry decodeNode2 n = 0 ∧ UInt8.ofNat (entry decodeNode1 n) = s := by
  simp only [decodeTree] at h
  split at h
  · rename_i h0
    exact ⟨h0, Option.some.inj h⟩
  · cases h

/-- The mask of a bit is the first one at a byte boundary only. -/
theorem mask_eq_first {j : ℕ} (hj : j < 8) : mask j = 0x80 ↔ j = 0 := by
  interval_cases j <;> decide

/-- **The decoder's loop reads lazily**, up to a byte past the end. The general reader of prefix
codes so applies to it, with the phantom byte as the look-ahead. -/
theorem lazyReader (frame : List UInt8) (destLen : ℕ) :
    PrefixCode.LazyReader decodeTree (fun p => bitAt frame (8 + p)) (8 * (frame.length - 1)) destLen
      (fun g n p out => decodeLoop frame destLen g (decodeAt frame n p out))
      (fun p out => some (out, min (1 + (p + 7) / 8) frame.length)) where
  inner g n p out hsym hroot hp := by
    have hnode : entry decodeNode2 n ≠ 0 := by
      intro h
      simp [decodeTree, h] at hsym
    have hbit : decide (frame.getD (1 + p / 8) 0 &&& mask (p % 8) ≠ 0) = bitAt frame (8 + p) := by
      rw [bitAt, byteBit, show (8 + p) / 8 = 1 + p / 8 by omega, show (8 + p) % 8 = p % 8 by omega]
    have hstep := consumeBit_inner hroot hp out
    rw [decodeLoop_inner (decodeAt frame n p out) hnode hbit]
    simp only [decodeAt] at hstep ⊢
    rw [hstep]
    rfl
  leaf g n p out s hsym hout := by
    obtain ⟨hleaf, hs⟩ := symbol_eq_some hsym
    have hstep := consumeBit_root frame p (out ++ [s])
    rw [decodeLoop_leaf (decodeAt frame n p out) hleaf hout]
    simp only [decodeAt, hs] at hstep ⊢
    rw [hstep]
    rfl
  last g n p out s hsym hout := by
    obtain ⟨hleaf, hs⟩ := symbol_eq_some hsym
    rw [decodeLoop_last (decodeAt frame n p out) hleaf hout]
    have hfirst := mask_eq_first (Nat.mod_lt p (show 8 > 0 by omega))
    simp only [decodeAt, hs, hfirst]
    congr 3
    split <;> omega

/-- The decoder never goes back to the header. -/
theorem srcIndex_of_consumeBit {st st' : DecodeState} (h : consumeBit st = some st') :
    st.srcIndex ≤ st'.srcIndex := by
  obtain ⟨s, hs, h⟩ : ∃ s : DecodeState, s.srcIndex = st.srcIndex ∧
      (if s.bitmask > 0 then some s
        else if s.remaining = 0 then none
        else some { s with
          bitmask := 0x80, srcIndex := s.srcIndex + 1, remaining := s.remaining - 1 }) =
        some st' := ⟨_, by split <;> rfl, h⟩
  rw [← hs]
  split at h
  · cases h
    exact le_refl _
  · split at h
    · cases h
    · cases h
      exact Nat.le_succ _

theorem decodeLoop_consumed {frame decoded : List UInt8} {destLen consumed guard : ℕ}
    {st : DecodeState} (hframe : 1 ≤ frame.length) (hst : 1 ≤ st.srcIndex)
    (h : decodeLoop frame destLen guard st = some (decoded, consumed)) : 0 < consumed := by
  induction guard generalizing st with
  | zero => cases h
  | succ guard ih =>
    have hnext : ∀ st', (consumeBit st' >>= decodeLoop frame destLen guard) =
        some (decoded, consumed) → 1 ≤ st'.srcIndex → 0 < consumed := by
      intro st' hrest hst'
      rcases hconsume : consumeBit st' with _ | st''
      · rw [hconsume] at hrest
        cases hrest
      · rw [hconsume] at hrest
        exact ih (hst'.trans (srcIndex_of_consumeBit hconsume)) hrest
    simp only [decodeLoop] at h
    split at h
    · split at h
      · cases h
        split <;> omega
      · exact hnext _ h hst
    · exact hnext _ h hst

/-- A frame that is decoded takes at least a byte. -/
theorem consumed_pos {frame decoded : List UInt8} {consumed : ℕ}
    (h : tryDecodeFrame frame = some (decoded, consumed)) : 0 < consumed := by
  rw [tryDecodeFrame] at h
  split at h
  · cases h
  · dsimp only at h
    split at h
    · cases h
      omega
    · exact decodeLoop_consumed (by omega) (le_refl 1) h

theorem decodeLoop_ne_nil {frame decoded : List UInt8} {destLen consumed guard : ℕ}
    {st : DecodeState} (h : decodeLoop frame destLen guard st = some (decoded, consumed)) :
    decoded ≠ [] := by
  induction guard generalizing st with
  | zero => cases h
  | succ guard ih =>
    have hnext : ∀ st', (consumeBit st' >>= decodeLoop frame destLen guard) =
        some (decoded, consumed) → decoded ≠ [] := by
      intro st' hrest
      rcases hconsume : consumeBit st' with _ | st''
      · rw [hconsume] at hrest
        cases hrest
      · rw [hconsume] at hrest
        exact ih hrest
    simp only [decodeLoop] at h
    split at h
    · split at h
      · cases h
        simp
      · exact hnext _ h
    · exact hnext _ h

/-- What is decoded has at least a byte. -/
theorem decoded_ne_nil {frame decoded : List UInt8} {consumed : ℕ}
    (h : tryDecodeFrame frame = some (decoded, consumed)) : decoded ≠ [] := by
  rw [tryDecodeFrame] at h
  split at h
  · cases h
  · rename_i hlen
    dsimp only at h
    split at h
    · cases h
      rw [Ne, List.drop_eq_nil_iff]
      omega
    · exact decodeLoop_ne_nil h

/-- The steps of a message are within the guard. -/
theorem steps_le (source : List UInt8) :
    PrefixCode.steps codeBits source ≤ 16 * source.length := by
  induction source with
  | nil => simp [PrefixCode.steps]
  | cons b source ih =>
    have hb := (length_codeBits_bounds b).2
    simp only [PrefixCode.steps, List.map_cons, List.sum_cons, List.length_cons] at ih ⊢
    omega

/-- A message has a bit for each byte. -/
theorem length_le_message (source : List UInt8) : source.length ≤ (message source).length := by
  induction source with
  | nil => simp
  | cons b source ih =>
    have hb := (length_codeBits_bounds b).1
    simp only [message, List.flatMap_cons, List.length_append, List.length_cons] at ih ⊢
    omega

/-- **A coded frame is decoded, and taken exactly**, whatever follows it. A stream of frames can
therefore be taken apart frame by frame. -/
theorem tryDecodeFrame_isFrame (hpos : 1 ≤ source.length) (hmax : source.length ≤ 255)
    {frame : List UInt8} (hframe : IsFrame source frame) (rest : List UInt8) :
    tryDecodeFrame (frame ++ rest) = some (source, frame.length) := by
  have hlen := hframe.length
  have hbits := length_le_message source
  have hheader : ((frame ++ rest).getD 0 0).toNat + 1 = source.length := by
    rw [List.getD_append _ _ _ _ (by omega), hframe.header, UInt8.toNat_ofNat']
    omega
  have hdecode := (lazyReader (frame ++ rest) source.length).decodes decodeTree_codes
    (p := 0) (g := (source.length + 2) * 16) (List.length_pos_iff.mp hpos)
    (fun i hi => by
      rw [Nat.zero_add, bitAt_append_left (by simp only [message] at hlen; omega),
        hframe.bits i hi, message, List.getD_eq_getElem _ _ hi])
    (by simp only [message] at hlen; rw [List.length_append]; omega) []
    (by simp) (by have := steps_le source; omega)
  rw [tryDecodeFrame, if_neg (by rw [List.length_append]; omega)]
  simp only [hheader]
  rw [if_neg (by omega)]
  refine Eq.trans ?_ (hdecode.trans ?_)
  · rfl
  · simp only [List.nil_append, Nat.zero_add, List.length_append]
    congr 2
    simp only [message] at hlen
    omega

/-- A stored frame is decoded, and claims the whole span. -/
theorem tryDecodeFrame_stored (hpos : 1 ≤ source.length) :
    tryDecodeFrame (storedMarker :: source) = some (source, source.length + 1) := by
  rw [tryDecodeFrame, if_neg (by rw [List.length_cons]; omega)]
  rfl

/-- **The frame codec**: for every source of one to 255 bytes the encoder stays in
its scratch buffer and returns at most one byte more than the source; decoding the
frame gives the source and takes the whole frame; and a frame that is not stored is
taken exactly out of a buffer it starts. -/
theorem tryDecodeFrame_encodeFrame (source : List UInt8) (hpos : 1 ≤ source.length)
    (hmax : source.length ≤ 255) :
    ∃ frame, encodeFrame source = .ok frame ∧ frame.length ≤ source.length + 1 ∧
      tryDecodeFrame frame = some (source, frame.length) ∧
      (frame.head? ≠ some storedMarker →
        ∀ rest, tryDecodeFrame (frame ++ rest) = some (source, frame.length)) := by
  obtain ⟨frame, hencode, ⟨-, rfl⟩ | hframe⟩ := encodeFrame_spec hpos hmax
  · refine ⟨_, hencode, by simp, ?_, fun h => absurd rfl h⟩
    rw [tryDecodeFrame_stored hpos, List.length_cons]
  · have hdecode := tryDecodeFrame_isFrame hpos hmax hframe
    refine ⟨frame, hencode, ?_, ?_, fun _ => hdecode⟩
    · have hlen := hframe.length
      have hshort := hframe.short
      omega
    · simpa using hdecode []

/-- A text that is coded, with its frame walked out of a longer buffer. -/
theorem tryDecodeFrame_encodeFrame_text :
    ∃ frame, encodeFrame (List.replicate 40 0x65) = .ok frame ∧
      frame.length ≤ (List.replicate 40 (0x65 : UInt8)).length + 1 ∧
      tryDecodeFrame frame = some (List.replicate 40 0x65, frame.length) ∧
      (frame.head? ≠ some storedMarker → ∀ rest,
        tryDecodeFrame (frame ++ rest) = some (List.replicate 40 0x65, frame.length)) :=
  tryDecodeFrame_encodeFrame (List.replicate 40 0x65) (by decide) (by decide)

end Compression

end Convers
