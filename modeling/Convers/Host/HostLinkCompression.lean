import Convers.Protocol.Compression
import Convers.Protocol.LineAssembler

/-!
# The compression stage

The byte stage of a host link: it codes what is written once its transmit side is armed,
decodes what is read once its receive side is, and keeps the state of the negotiation.
A read is decoded one frame at a time, and what cannot be a frame passes through as text.

An armed side passes a read through too when it starts with the four bytes of a system
notice, `"*** "`. A coded frame starts with these bytes when it has 43 bytes of source and
their code starts with the bits of `"** "` (`Convers.HostLinkCompression.notice_iff`), and
then it is taken for text; any other frame is decoded to its source
(`Convers.HostLinkCompression.roundTrips_iff`).
-/

namespace Convers

namespace CompressionNegotiation

/-- `Prefix`. -/
def commandPrefix : Text := "//COMP".toList

/-- `Enable`. -/
def enable : Text := "//COMP 1".toList

/-- `CompressionNegotiation.TryParse`: what a toggle asks for. -/
def tryParse (line : Text) : Option Bool :=
  let canonical := trim line
  if toUpperInvariant (canonical.take commandPrefix.length) = commandPrefix then
    let arg := trim (canonical.drop commandPrefix.length)
    if arg = ['1'] then some true
    else if arg = ['0'] then some false
    else none
  else none

/-- The toggle as it is written, between two carriage returns. -/
def toggle : List UInt8 := encode (cr :: enable ++ [cr])

end CompressionNegotiation

/-- `HostLinkCompression`. -/
structure HostLinkCompression where
  /-- `_txActive`. -/
  txActive : Bool
  /-- `_rxActive`. -/
  rxActive : Bool
  /-- `_offered`. -/
  offered : Bool
  deriving DecidableEq

namespace HostLinkCompression

open Compression HuffmanTables BitString

/-- A new stage is not armed. -/
def fresh : HostLinkCompression := ⟨false, false, false⟩

/-- `SystemNoticePrefix`. -/
def systemNoticePrefix : List UInt8 := [0x2A, 0x2A, 0x2A, 0x20]

/-- `BuildOffer`: the bytes to write, and the stage after it. -/
def buildOffer (c : HostLinkCompression) : List UInt8 × HostLinkCompression :=
  (CompressionNegotiation.toggle, { c with offered := true, txActive := true })

/-- The chunks of a write: its bytes in pieces of `MaxFrameLength`, and what is left. -/
def chunks (bytes : List UInt8) : List (List UInt8) :=
  (List.range ((bytes.length + (maxFrameLength - 1)) / maxFrameLength)).map fun i =>
    (bytes.drop (maxFrameLength * i)).take maxFrameLength

/-- `EncodeOutbound`: the writes of a framed line. -/
def encodeOutbound (c : HostLinkCompression) (framedLine : List UInt8) :
    Except Fault (List (List UInt8)) :=
  if !c.txActive || framedLine.length = 0 then .ok [framedLine]
  else (chunks framedLine).mapM encodeFrame

/-- `IsLikelyTruncatedFrame`: the bytes are fewer than a frame of the declared length has. -/
def isLikelyTruncatedFrame (frame : List UInt8) : Bool :=
  if frame.length < 2 || frame.getD 0 0 = storedMarker then false
  else
    let declaredLen := (frame.getD 0 0).toNat + 1
    let minPayload := (declaredLen * 3 + 7) / 8
    frame.length - 1 < minPayload

/-- `DecodeInbound`: the text at the front of a read, and the bytes behind it. -/
def decodeInbound (c : HostLinkCompression) (socketBytes : List UInt8) :
    List UInt8 × List UInt8 :=
  if socketBytes.length = 0 then ([], [])
  else if !c.rxActive then
    -- up to the first terminator, which may end a toggle
    match socketBytes.findIdx? isTerminatorByte with
    | none => (socketBytes, [])
    | some term =>
      if term = socketBytes.length - 1 then (socketBytes, [])
      else (socketBytes.take (term + 1), socketBytes.drop (term + 1))
  else if systemNoticePrefix.isPrefixOf socketBytes then (socketBytes, [])
  else
    match tryDecodeFrame socketBytes with
    | some (decoded, consumed) =>
      if 0 < consumed then
        (decoded, if consumed < socketBytes.length then socketBytes.drop consumed else [])
      else if isLikelyTruncatedFrame socketBytes then ([], socketBytes)
      else (socketBytes, [])
    | none =>
      if isLikelyTruncatedFrame socketBytes then ([], socketBytes) else (socketBytes, [])

/-- `TryApplyInboundToggle`: the stage after a toggle, and the reply that is owed; nothing
on a line that is none. -/
def tryApplyInboundToggle (c : HostLinkCompression) (line : Text) :
    Option (HostLinkCompression × Option (List UInt8)) :=
  match CompressionNegotiation.tryParse line with
  | none => none
  | some true =>
    let c := { c with rxActive := true }
    if c.offered then some (c, none)
    else some ({ c with offered := true }, some CompressionNegotiation.toggle)
  | some false => some ({ c with rxActive := false, txActive := false, offered := false }, none)

/-- `EngageTransmitAfterReciprocal`. -/
def engageTransmitAfterReciprocal (c : HostLinkCompression) : HostLinkCompression :=
  { c with txActive := true }

/-- A line that is no toggle is none for the stage. -/
theorem tryApplyInboundToggle_eq_none {c : HostLinkCompression} {line : Text} :
    c.tryApplyInboundToggle line = none ↔ CompressionNegotiation.tryParse line = none := by
  unfold tryApplyInboundToggle
  rcases CompressionNegotiation.tryParse line with _ | _ | _
  · simp
  · simp
  · dsimp only
    split <;> simp

/-- A toggle sets the receive side to what it asks for. -/
theorem rxActive_of_toggle {c c' : HostLinkCompression} {line : Text} {reply : Option (List UInt8)}
    (h : c.tryApplyInboundToggle line = some (c', reply)) :
    CompressionNegotiation.tryParse line = some c'.rxActive := by
  unfold tryApplyInboundToggle at h
  split at h
  · cases h
  · rename_i hparse
    rw [hparse]
    dsimp only at h
    split at h
    · cases h
      rfl
    · cases h
      rfl
  · rename_i hparse
    cases h
    exact hparse

/-! ### The chunks of a line -/

/-- The chunks of some bytes, put together again up to the `n`-th. -/
theorem flatten_take_chunks (bytes : List UInt8) (n : ℕ) :
    ((List.range n).map fun i => (bytes.drop (maxFrameLength * i)).take maxFrameLength).flatten =
      bytes.take (maxFrameLength * n) := by
  induction n with
  | zero => simp
  | succ n ih =>
    rw [List.range_succ, List.map_append, List.flatten_append, ih, Nat.mul_succ, List.take_add]
    simp

/-- **The chunks of a line are the line.** What is sent of a line is all of it, in order. -/
theorem flatten_chunks (bytes : List UInt8) : (chunks bytes).flatten = bytes := by
  rw [chunks, flatten_take_chunks, List.take_of_length_le]
  simp only [maxFrameLength]
  omega

/-- A chunk has one to 255 bytes. -/
theorem length_of_mem_chunks {bytes chunk : List UInt8} (h : chunk ∈ chunks bytes) :
    1 ≤ chunk.length ∧ chunk.length ≤ 255 := by
  obtain ⟨i, hi, rfl⟩ := List.mem_map.mp h
  rw [List.mem_range] at hi
  rw [List.length_take, List.length_drop]
  simp only [maxFrameLength] at hi ⊢
  omega

/-! ### What an armed stage reads -/

variable {c : HostLinkCompression} {source frame : List UInt8}

/-- The bits of a notice behind its first byte. -/
def noticeBits : List Bool := (List.range 24).map fun i => bitAt systemNoticePrefix (8 + i)

/-- **The code of a source looks like a notice**: it has 43 bytes, is coded, and the code
starts with the bits of a notice. -/
def NoticeLike (source : List UInt8) : Prop :=
  source.length = 43 ∧ (message source).length < 8 * source.length ∧
    (message source).take 24 = noticeBits

instance (source : List UInt8) : Decidable (NoticeLike source) :=
  inferInstanceAs (Decidable (_ ∧ _ ∧ _))

/-- The first bits of a message, one by one. -/
theorem take_message_eq_noticeBits (hlong : 24 ≤ (message source).length) :
    (message source).take 24 = noticeBits ↔
      ∀ i < 24, (message source).getD i false = bitAt systemNoticePrefix (8 + i) := by
  have hlength : ((message source).take 24).length = noticeBits.length := by
    rw [List.length_take, noticeBits, List.length_map, List.length_range]
    omega
  constructor
  · intro h i hi
    have hget : ((message source).take 24).getD i false = noticeBits.getD i false := by rw [h]
    rw [noticeBits, List.getD_eq_getElem?_getD, List.getElem?_take_of_lt hi,
      ← List.getD_eq_getElem?_getD] at hget
    rw [hget, List.getD_eq_getElem _ _ (by simpa using hi)]
    simp
  · intro h
    refine List.ext_getElem hlength fun i hi hi' => ?_
    have hi24 : i < 24 := by simpa [noticeBits] using hi'
    have hget := h i hi24
    rw [List.getD_eq_getElem _ _ (by omega)] at hget
    simp only [List.getElem_take, hget, noticeBits, List.getElem_map, List.getElem_range]

/-- **A coded frame that starts as a notice does.** The code of the first bytes decides, so it can
be told from the source alone. -/
theorem notice_iff (hpos : 1 ≤ source.length) (hmax : source.length ≤ 255)
    (hframe : IsFrame source frame) :
    systemNoticePrefix.isPrefixOf frame = true ↔ NoticeLike source := by
  have hlen := hframe.length
  have hbits := length_le_message source
  have hheader : frame.getD 0 0 = 0x2A ↔ source.length = 43 := by
    rw [hframe.header, ← UInt8.toNat_inj, UInt8.toNat_ofNat']
    have h42 : (0x2A : UInt8).toNat = 42 := rfl
    omega
  constructor
  · intro hpre
    obtain ⟨rest, rfl⟩ := List.isPrefixOf_iff_prefix.mp hpre
    have h43 : source.length = 43 := hheader.mp rfl
    refine ⟨h43, hframe.short, (take_message_eq_noticeBits (by omega)).mpr fun i hi => ?_⟩
    rw [← hframe.bits i (by omega), bitAt_append_left]
    have hfour : systemNoticePrefix.length = 4 := rfl
    omega
  · rintro ⟨h43, -, htake⟩
    have hmessage := (take_message_eq_noticeBits (by omega)).mp htake
    -- byte by byte
    have hbyte : ∀ j < 4, frame.getD j 0 = systemNoticePrefix.getD j 0 := by
      intro j hj
      rcases Nat.eq_zero_or_pos j with rfl | hjpos
      · exact hheader.mpr h43
      · refine byte_ext fun k hk => ?_
        have hframeBit := hframe.bits (8 * (j - 1) + k) (by omega)
        rw [hmessage (8 * (j - 1) + k) (by omega), bitAt, bitAt,
          show (8 + (8 * (j - 1) + k)) / 8 = j by omega,
          show (8 + (8 * (j - 1) + k)) % 8 = k by omega] at hframeBit
        exact hframeBit
    have htakes : frame.take 4 = systemNoticePrefix := by
      refine List.ext_getElem ?_ fun j hj hj' => ?_
      · rw [List.length_take]
        have hfour : systemNoticePrefix.length = 4 := rfl
        omega
      · have hj4 : j < 4 := hj'
        have hat := hbyte j hj4
        rw [List.getD_eq_getElem _ _ (by omega), List.getD_eq_getElem _ _ hj'] at hat
        rw [List.getElem_take, hat]
    rw [List.isPrefixOf_iff_prefix, ← htakes]
    exact List.take_prefix 4 frame

/-- What follows a coded frame does not make it look like a notice. -/
theorem notice_append_iff (hpos : 1 ≤ source.length) (hmax : source.length ≤ 255)
    (hframe : IsFrame source frame) (rest : List UInt8) :
    systemNoticePrefix.isPrefixOf (frame ++ rest) = true ↔ NoticeLike source := by
  rw [← notice_iff hpos hmax hframe, List.isPrefixOf_iff_prefix, List.isPrefixOf_iff_prefix]
  constructor
  · intro hpre
    have hlen := hframe.length
    have hbits := length_le_message source
    -- the header says that the frame is long enough
    have hhead : (frame ++ rest).getD 0 0 = 0x2A := by
      obtain ⟨more, hmore⟩ := hpre
      rw [← hmore]
      rfl
    rw [List.getD_append _ _ _ _ (by omega), hframe.header, ← UInt8.toNat_inj,
      UInt8.toNat_ofNat'] at hhead
    have h42 : (0x2A : UInt8).toNat = 42 := rfl
    have hfour : systemNoticePrefix.length = 4 := rfl
    exact List.prefix_of_prefix_length_le hpre (List.prefix_append frame rest) (by omega)
  · exact fun hpre => hpre.trans (List.prefix_append frame rest)

/-- An armed stage takes the first frame it finds. -/
theorem decodeInbound_of_tryDecodeFrame (hrx : c.rxActive = true) {bytes decoded : List UInt8}
    {consumed : ℕ} (hnot : systemNoticePrefix.isPrefixOf bytes = false)
    (hdecode : tryDecodeFrame bytes = some (decoded, consumed)) (hpos : 0 < consumed)
    (hle : consumed ≤ bytes.length) : c.decodeInbound bytes = (decoded, bytes.drop consumed) := by
  rw [decodeInbound, if_neg (by omega), if_neg (by simp [hrx]), if_neg (by simp [hnot]), hdecode]
  dsimp only
  rw [if_pos hpos]
  split
  · rfl
  · rw [List.drop_eq_nil_of_le (by omega)]

/-- **An armed stage reads a coded frame as its source**, whatever follows it, when its code does
not look like a notice. The frames that a stream is cut into are complete in this sense. -/
theorem decodeInbound_isFrame (hrx : c.rxActive = true) (hpos : 1 ≤ source.length)
    (hmax : source.length ≤ 255) (hframe : IsFrame source frame) (hnot : ¬NoticeLike source)
    (rest : List UInt8) : c.decodeInbound (frame ++ rest) = (source, rest) := by
  have hlen := hframe.length
  have hbits := length_le_message source
  have hnotice : systemNoticePrefix.isPrefixOf (frame ++ rest) = false :=
    Bool.eq_false_iff.mpr fun hpre => hnot ((notice_append_iff hpos hmax hframe rest).mp hpre)
  have hdecode := tryDecodeFrame_isFrame hpos hmax hframe rest
  rw [decodeInbound_of_tryDecodeFrame hrx hnotice hdecode (by omega) (by simp), List.drop_left]

/-- A coded frame that looks like a notice is taken for text. -/
theorem decodeInbound_notice (hrx : c.rxActive = true) {bytes : List UInt8}
    (hnotice : systemNoticePrefix.isPrefixOf bytes = true) :
    c.decodeInbound bytes = (bytes, []) := by
  have hne : bytes.length ≠ 0 := by
    rintro hzero
    rw [List.eq_nil_of_length_eq_zero hzero] at hnotice
    cases hnotice
  rw [decodeInbound, if_neg hne, if_neg (by simp [hrx]), if_pos hnotice]

/-- An armed stage reads a stored frame as its source, alone in its read. -/
theorem decodeInbound_stored (hrx : c.rxActive = true) (hpos : 1 ≤ source.length) :
    c.decodeInbound (storedMarker :: source) = (source, []) := by
  rw [decodeInbound_of_tryDecodeFrame hrx rfl (tryDecodeFrame_stored hpos) (by omega) (by simp)]
  simp

/-- The frame of a chunk that looks like a notice is not the chunk. -/
theorem ne_of_noticeLike (hlike : NoticeLike source)
    (hnotice : systemNoticePrefix.isPrefixOf frame = true) : frame ≠ source := by
  rintro rfl
  obtain ⟨rest, rfl⟩ := List.isPrefixOf_iff_prefix.mp hnotice
  -- the second bit of the code of a star is set, that of a notice is not
  have hbit : ((message (systemNoticePrefix ++ rest)).take 24).getD 1 false =
      noticeBits.getD 1 false := by
    rw [hlike.2.2]
  have hstar : message (systemNoticePrefix ++ rest) =
      message systemNoticePrefix ++ message rest := by
    simp [message]
  have hlong : 1 < (message systemNoticePrefix).length := by decide +kernel
  rw [List.getD_eq_getElem?_getD, List.getElem?_take_of_lt (by omega), hstar,
    List.getElem?_append_left hlong, ← List.getD_eq_getElem?_getD] at hbit
  have hdiffer : (message systemNoticePrefix).getD 1 false ≠ noticeBits.getD 1 false := by
    decide +kernel
  exact hdiffer hbit

/-- **A frame that arrives as its own read is read as its source** iff the source does not look like
a notice. The condition is exact, and so is the damage when it fails. -/
theorem decodeInbound_encodeFrame_iff (hrx : c.rxActive = true) (hpos : 1 ≤ source.length)
    (hmax : source.length ≤ 255) (hencode : encodeFrame source = .ok frame) :
    c.decodeInbound frame = (source, []) ↔ ¬NoticeLike source := by
  obtain ⟨frame', hencode', hcases⟩ := encodeFrame_spec hpos hmax
  rw [hencode] at hencode'
  obtain rfl : frame = frame' := Except.ok.inj hencode'
  rcases hcases with ⟨hlong, rfl⟩ | hframe
  · exact iff_of_true (decodeInbound_stored hrx hpos) fun hlike => absurd hlike.2.1 (by omega)
  · constructor
    · intro hread hlike
      have hnotice := (notice_iff hpos hmax hframe).mpr hlike
      rw [decodeInbound_notice hrx hnotice] at hread
      exact ne_of_noticeLike hlike hnotice (congrArg Prod.fst hread)
    · intro hnot
      have hread := decodeInbound_isFrame hrx hpos hmax hframe hnot []
      rwa [List.append_nil] at hread

/-! ### A whole line -/

/-- A loop whose every turn succeeds. -/
theorem mapM_ok {α β : Type} {f : α → Except Fault β} {l : List α} (h : ∀ a ∈ l, ∃ b, f a = .ok b) :
    ∃ bs, l.mapM f = .ok bs ∧ List.Forall₂ (fun a b => f a = .ok b) l bs := by
  induction l with
  | nil => exact ⟨[], rfl, .nil⟩
  | cons a l ih =>
    obtain ⟨b, hb⟩ := h a (by simp)
    obtain ⟨bs, hbs, hall⟩ := ih fun x hx => h x (by simp [hx])
    refine ⟨b :: bs, ?_, .cons hb hall⟩
    rw [List.mapM_cons, hb, hbs]
    rfl

/-- **A line goes through two armed stages**: each frame, as a read of its own, is read as
its chunk with nothing left, and the chunks are the line. -/
def RoundTrips (tx rx : HostLinkCompression) (line : List UInt8) : Prop :=
  ∃ frames, tx.encodeOutbound line = .ok frames ∧
    List.Forall₂ (fun chunk frame => encodeFrame chunk = .ok frame ∧
      rx.decodeInbound frame = (chunk, [])) (chunks line) frames ∧
        (frames.map fun frame => (rx.decodeInbound frame).1).flatten = line

/-- **The round trip of the armed stages**: a line goes through iff no chunk of it looks like a
notice. A line goes out in chunks, so it is the chunks that must not look like one. -/
theorem roundTrips_iff {tx rx : HostLinkCompression} (htx : tx.txActive = true)
    (hrx : rx.rxActive = true) {line : List UInt8} (hne : line ≠ []) :
    RoundTrips tx rx line ↔ ∀ chunk ∈ chunks line, ¬NoticeLike chunk := by
  have hencodes : ∀ chunk ∈ chunks line, ∃ frame, encodeFrame chunk = .ok frame := by
    intro chunk hchunk
    obtain ⟨hpos, hmax⟩ := length_of_mem_chunks hchunk
    obtain ⟨frame, hframe, -⟩ := encodeFrame_spec hpos hmax
    exact ⟨frame, hframe⟩
  obtain ⟨frames, hframes, hall⟩ := mapM_ok hencodes
  have hout : tx.encodeOutbound line = .ok frames := by
    rw [encodeOutbound, if_neg (by simp [htx, hne]), hframes]
  have hread : ∀ chunk frame, chunk ∈ chunks line ∧ encodeFrame chunk = .ok frame →
      (rx.decodeInbound frame = (chunk, []) ↔ ¬NoticeLike chunk) := by
    rintro chunk frame ⟨hchunk, hframe⟩
    obtain ⟨hpos, hmax⟩ := length_of_mem_chunks hchunk
    exact decodeInbound_encodeFrame_iff hrx hpos hmax hframe
  constructor
  · rintro ⟨frames', -, htrip, -⟩
    have hmem := (List.forall₂_and_left (p := (· ∈ chunks line)) _ _).mpr ⟨fun _ h => h, htrip⟩
    have hnone : List.Forall₂ (fun chunk _ => ¬NoticeLike chunk ∧ True) (chunks line) frames' :=
      hmem.imp fun chunk frame h => ⟨(hread chunk frame ⟨h.1, h.2.1⟩).mp h.2.2, trivial⟩
    exact ((List.forall₂_and_left _ _).mp hnone).1
  · intro hnone
    have hmem := (List.forall₂_and_left (p := (· ∈ chunks line)) _ _).mpr ⟨fun _ h => h, hall⟩
    have htrip : List.Forall₂ (fun chunk frame => encodeFrame chunk = .ok frame ∧
        rx.decodeInbound frame = (chunk, [])) (chunks line) frames :=
      hmem.imp fun chunk frame h => ⟨h.2, (hread chunk frame h).mpr (hnone chunk h.1)⟩
    refine ⟨frames, hout, htrip, ?_⟩
    have hmap : List.Forall₂ Eq (chunks line)
        (frames.map fun frame => (rx.decodeInbound frame).1) :=
      List.forall₂_map_right_iff.mpr (htrip.imp fun chunk frame h => (congrArg Prod.fst h.2).symm)
    rw [List.forall₂_eq_eq_eq] at hmap
    rw [← hmap, flatten_chunks]

/-- Two stages that are armed both ways. -/
def exampleArmed : HostLinkCompression := ⟨true, true, true⟩

/-- A line of the wire. -/
theorem roundTrips_iff_hello :
    RoundTrips exampleArmed exampleArmed (encode "hello world\n".toList) ↔
      ∀ chunk ∈ chunks (encode "hello world\n".toList), ¬NoticeLike chunk :=
  roundTrips_iff rfl rfl (by decide)

/-- A line of 43 bytes whose code starts as a notice does. -/
def exampleNotice : List UInt8 := encode ("leleWell".toList ++ List.replicate 34 'e' ++ [lf])

/-- **A coded line that is taken for a notice** is not read back. Its code happens to begin with the
bytes of the prefix. -/
theorem not_roundTrips_exampleNotice :
    exampleNotice ≠ [] ∧ ¬RoundTrips exampleArmed exampleArmed exampleNotice := by
  refine ⟨by decide, ?_⟩
  rintro ⟨frames, hout, -, hflatten⟩
  have hevaluates : (exampleArmed.encodeOutbound exampleNotice).toOption.map (fun frames =>
      (frames.map fun frame => (exampleArmed.decodeInbound frame).1).flatten) ≠
        some exampleNotice := by
    decide +kernel
  rw [hout] at hevaluates
  exact hevaluates (congrArg some hflatten)

end HostLinkCompression

end Convers
