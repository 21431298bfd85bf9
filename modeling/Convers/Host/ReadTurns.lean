import Convers.Host.CompressingLineTransport

/-!
# The turns of a read

The inner loop of the line transport takes the bytes of a read off the buffer turn by turn.
Here each turn is kept with the transport it finds, so that it can be said of every byte
with which receive side it was taken, and of every line in which turn it was completed.

`Convers.CompressingLineTransport.Takes` says what some bytes become whatever follows them:
whole lines that are not armed are taken as they are
(`Convers.CompressingLineTransport.takes_whole`), a toggle arms the receive side
(`Convers.CompressingLineTransport.takes_toggle`), and frames are taken armed to the last
byte as long as no line switches the compression off
(`Convers.CompressingLineTransport.decodeBuffer_framed`).
-/

namespace Convers

open Compression HostLinkCompression

namespace CompressingLineTransport

/-! ### The turns of a read -/

/-- A turn of the inner loop of `ReceiveLineAsync`: the transport before it, the bytes it
takes off the buffer, and the text it makes of them. -/
structure Piece where
  before : CompressingLineTransport
  bytes : List UInt8
  plain : List UInt8

/-- The turns of `Convers.CompressingLineTransport.decodeBuffer`. -/
def pieces : ℕ → CompressingLineTransport → List UInt8 → List Piece
  | 0, _, _ => []
  | turns + 1, t, buffer =>
    if buffer.length = 0 then []
    else
      let (plain, remainder) := t.compression.decodeInbound buffer
      if plain.length = 0 then []
      else
        ⟨t, buffer.take (buffer.length - remainder.length), plain⟩ ::
          if remainder.length < buffer.length then pieces turns (t.feed plain) remainder else []

/-- The bytes of some turns, each with the receive side that took it. -/
def taken (ps : List Piece) : List (Bool × UInt8) :=
  ps.flatMap fun p => p.bytes.map fun b => (p.before.compression.rxActive, b)

/-- The lines that some turns complete. -/
def completed (ps : List Piece) : List Text :=
  ps.flatMap fun p => (p.before.assembler.feed p.plain).2

/-- The turns of a read. -/
def piecesOf (t : CompressingLineTransport) (raw : List UInt8) : List Piece :=
  let buffer := t.carry ++ raw
  pieces buffer.length { t with carry := [] } buffer

theorem taken_append (ps qs : List Piece) : taken (ps ++ qs) = taken ps ++ taken qs :=
  List.flatMap_append

theorem completed_append (ps qs : List Piece) :
    completed (ps ++ qs) = completed ps ++ completed qs := List.flatMap_append

variable {t u v : CompressingLineTransport} {bytes rest plain : List UInt8}

/-- A turn that takes some bytes. -/
theorem decodeBuffer_turn (hdecode : t.compression.decodeInbound (bytes ++ rest) = (plain, rest))
    (hbytes : bytes ≠ []) (hplain : plain ≠ []) (turns : ℕ) :
    decodeBuffer (turns + 1) t (bytes ++ rest) = decodeBuffer turns (t.feed plain) rest ∧
      pieces (turns + 1) t (bytes ++ rest) =
        ⟨t, bytes, plain⟩ :: pieces turns (t.feed plain) rest := by
  have hpos := List.length_pos_iff.mpr hbytes
  have hlen : (bytes ++ rest).length ≠ 0 := by
    rw [List.length_append]
    omega
  have hshort : rest.length < (bytes ++ rest).length := by
    rw [List.length_append]
    omega
  have htake : (bytes ++ rest).take ((bytes ++ rest).length - rest.length) = bytes := by
    rw [List.length_append, Nat.add_sub_cancel, List.take_left]
  constructor
  · rw [decodeBuffer, if_neg hlen, hdecode]
    dsimp only
    rw [if_neg (by simpa using hplain), if_pos hshort]
  · rw [pieces, if_neg hlen, hdecode]
    dsimp only
    rw [if_neg (by simpa using hplain), if_pos hshort, htake]

theorem decodeBuffer_nil (turns : ℕ) (t : CompressingLineTransport) :
    decodeBuffer turns t [] = t ∧ pieces turns t [] = [] := by
  cases turns <;> exact ⟨rfl, rfl⟩

/-- **The bytes are taken by some turns**, whatever follows them in the buffer. -/
def Takes (t : CompressingLineTransport) (bytes : List UInt8) (ps : List Piece)
    (u : CompressingLineTransport) : Prop :=
  ∀ rest turns, (bytes ++ rest).length ≤ turns → ∃ turns', rest.length ≤ turns' ∧
    decodeBuffer turns t (bytes ++ rest) = decodeBuffer turns' u rest ∧
      pieces turns t (bytes ++ rest) = ps ++ pieces turns' u rest

theorem Takes.refl (t : CompressingLineTransport) : Takes t [] [] t :=
  fun _ turns hturns => ⟨turns, hturns, rfl, rfl⟩

theorem Takes.trans {bytes' : List UInt8} {ps qs : List Piece} (h : Takes t bytes ps u)
    (h' : Takes u bytes' qs v) : Takes t (bytes ++ bytes') (ps ++ qs) v := by
  intro rest turns hturns
  rw [List.append_assoc] at hturns ⊢
  obtain ⟨turns', hturns', hstate, hpieces⟩ := h (bytes' ++ rest) turns hturns
  obtain ⟨turns'', hturns'', hstate', hpieces'⟩ := h' rest turns' hturns'
  refine ⟨turns'', hturns'', hstate.trans hstate', ?_⟩
  rw [hpieces, hpieces', List.append_assoc]

/-- A turn takes its bytes. -/
theorem Takes.turn (hbytes : bytes ≠ []) (hplain : plain ≠ [])
    (hdecode : ∀ rest, t.compression.decodeInbound (bytes ++ rest) = (plain, rest)) :
    Takes t bytes [⟨t, bytes, plain⟩] (t.feed plain) := by
  intro rest turns hturns
  have hpos := List.length_pos_iff.mpr hbytes
  rw [List.length_append] at hturns
  obtain ⟨turns, rfl⟩ : ∃ n, turns = n + 1 := Nat.exists_eq_add_one.mpr (by omega)
  obtain ⟨hstate, hpieces⟩ := decodeBuffer_turn (hdecode rest) hbytes hplain turns
  exact ⟨turns, by omega, hstate, hpieces⟩

/-- A read with nothing carried over. -/
theorem receiveRead_of_carry (hcarry : t.carry = []) (raw : List UInt8) :
    t.receiveRead raw = decodeBuffer raw.length t raw ∧
      t.piecesOf raw = pieces raw.length t raw := by
  have hclean : { t with carry := [] } = t := by rw [← hcarry]
  rw [receiveRead, piecesOf, hcarry, hclean, List.nil_append]
  exact ⟨rfl, rfl⟩

/-- A read of bytes that are taken. -/
theorem Takes.receiveRead {ps : List Piece} (h : Takes t bytes ps u) (hcarry : t.carry = []) :
    t.receiveRead bytes = u ∧ t.piecesOf bytes = ps := by
  obtain ⟨turns, -, hstate, hpieces⟩ := h [] bytes.length (by simp)
  rw [(receiveRead_of_carry hcarry bytes).1, (receiveRead_of_carry hcarry bytes).2]
  rw [List.append_nil, (decodeBuffer_nil turns u).1] at hstate
  rw [List.append_nil, (decodeBuffer_nil turns u).2, List.append_nil] at hpieces
  exact ⟨hstate, hpieces⟩

/-- No read changes the terminator. -/
theorem terminator_receiveRead (t : CompressingLineTransport) (raw : List UInt8) :
    (t.receiveRead raw).terminator = t.terminator := by
  have hqueue : ∀ (w : CompressingLineTransport) (line : Text),
      (w.queueAssembledLine line).terminator = w.terminator := by
    intro w line
    rw [queueAssembledLine]
    split
    · rfl
    · split <;> rfl
  have hfold : ∀ (lines : List Text) (w : CompressingLineTransport),
      (lines.foldl queueAssembledLine w).terminator = w.terminator := by
    intro lines
    induction lines with
    | nil => exact fun _ => rfl
    | cons line lines ih => exact fun w => (ih _).trans (hqueue w line)
  have hdecode : ∀ (turns : ℕ) (w : CompressingLineTransport) (buffer : List UInt8),
      (decodeBuffer turns w buffer).terminator = w.terminator := by
    intro turns
    induction turns with
    | zero => exact fun _ _ => rfl
    | succ turns ih =>
      intro w buffer
      have hfeed : ∀ plain, (w.feed plain).terminator = w.terminator := fun plain =>
        hfold (w.assembler.feed plain).2 { w with assembler := (w.assembler.feed plain).1 }
      rw [decodeBuffer]
      dsimp only
      split
      · rfl
      · split
        · rfl
        · split
          · exact (ih _ _).trans (hfeed _)
          · exact hfeed _
  exact hdecode _ { t with carry := [] } _

/-! ### Lines that change nothing -/

/-- The line leaves the stage as it is: it is no toggle, or asks for what is the case. -/
def Harmless (c : HostLinkCompression) (line : Text) : Prop :=
  CompressionNegotiation.tryParse line = none ∨
    CompressionNegotiation.tryParse line = some true ∧ c.rxActive = true ∧ c.offered = true

theorem queueAssembledLine_harmless {line : Text} (h : Harmless t.compression line) :
    (t.queueAssembledLine line).compression = t.compression ∧
      (t.queueAssembledLine line).pendingReplies = t.pendingReplies := by
  rw [queueAssembledLine]
  split
  · exact ⟨rfl, rfl⟩
  · rcases h with hnone | ⟨htoggle, hrx, hoffered⟩
    · rw [tryApplyInboundToggle_eq_none.mpr hnone]
      exact ⟨rfl, rfl⟩
    · have hsame : t.compression.tryApplyInboundToggle line = some (t.compression, none) := by
        rw [tryApplyInboundToggle, htoggle]
        dsimp only
        rw [if_pos hoffered]
        congr 2
        rw [← hrx]
      rw [hsame]
      exact ⟨rfl, by simp⟩

/-- **A text that changes nothing** is fed to the splitter only. Only a toggle among the lines
changes the stage, or makes a reply. -/
theorem feed_harmless (h : ∀ line ∈ (t.assembler.feed plain).2, Harmless t.compression line) :
    (t.feed plain).compression = t.compression ∧
      (t.feed plain).pendingReplies = t.pendingReplies ∧
        (t.feed plain).receiver =
          { t.receiver with assembler := (t.assembler.feed plain).1 } := by
  have hfold : ∀ (lines : List Text) (w : CompressingLineTransport),
      (∀ line ∈ lines, Harmless w.compression line) →
        (lines.foldl queueAssembledLine w).compression = w.compression ∧
          (lines.foldl queueAssembledLine w).pendingReplies = w.pendingReplies := by
    intro lines
    induction lines with
    | nil => exact fun w _ => ⟨rfl, rfl⟩
    | cons line lines ih =>
      intro w hw
      obtain ⟨hcompression, hreplies⟩ := queueAssembledLine_harmless (hw line (by simp))
      obtain ⟨h1, h2⟩ := ih (w.queueAssembledLine line) fun l hl => by
        rw [hcompression]
        exact hw l (List.mem_cons_of_mem _ hl)
      exact ⟨h1.trans hcompression, h2.trans hreplies⟩
  obtain ⟨h1, h2⟩ := hfold _ { t with assembler := (t.assembler.feed plain).1 } h
  obtain ⟨-, h3, h4, -⟩ := foldl_queueAssembledLine
    { t with assembler := (t.assembler.feed plain).1 } (t.assembler.feed plain).2
  refine ⟨h1, h2, Receiver.mk.injEq .. |>.mpr ⟨?_, h3, h4⟩⟩
  exact congrArg rxActive h1

/-! ### Whole lines that are not armed -/

/-- Bytes that end where a line does. -/
inductive Whole : List UInt8 → Prop
  | nil : Whole []
  | line {body rest : List UInt8} {b : UInt8} (hbody : ∀ x ∈ body, isTerminatorByte x = false)
      (hb : isTerminatorByte b = true) (hrest : Whole rest) : Whole (body ++ b :: rest)

theorem whole_concat {b : UInt8} (hb : isTerminatorByte b = true) (bytes : List UInt8) :
    Whole (bytes ++ [b]) := by
  induction bytes with
  | nil => exact @Whole.line [] [] b (by simp) hb .nil
  | cons x bytes ih =>
    rcases hx : isTerminatorByte x with _ | _
    · -- the byte begins the first line of the rest
      generalize hwhole : bytes ++ [b] = whole at ih
      rcases ih with _ | ⟨hbody, hb', hrest⟩
      · simp at hwhole
      · rw [List.cons_append, hwhole, ← List.cons_append]
        refine .line (fun y hy => ?_) hb' hrest
        rcases List.mem_cons.mp hy with rfl | hy
        · exact hx
        · exact hbody y hy
    · exact @Whole.line [] _ x (by simp) hx ih

/-- A side that is not armed decodes a line of its own. -/
theorem decodeInbound_line {c : HostLinkCompression} (hrx : c.rxActive = false)
    {body : List UInt8} {b : UInt8} (hbody : ∀ x ∈ body, isTerminatorByte x = false)
    (hb : isTerminatorByte b = true) (rest : List UInt8) :
    c.decodeInbound (body ++ [b] ++ rest) = (body ++ [b], rest) := by
  have hfind : (body ++ [b] ++ rest).findIdx? isTerminatorByte = some body.length := by
    rw [List.append_assoc, List.findIdx?_append, List.findIdx?_eq_none_iff.mpr hbody,
      List.singleton_append, List.findIdx?_cons, hb]
    simp
  rw [decodeInbound, if_neg (by simp), if_pos (by simp [hrx]), hfind]
  dsimp only
  have hlen : (body ++ [b]).length = body.length + 1 := by simp
  split
  · rename_i hlast
    have hnil : rest = [] := by
      rw [List.length_append, hlen] at hlast
      exact List.eq_nil_of_length_eq_zero (by omega)
    rw [hnil, List.append_nil]
  · rw [← hlen, List.take_left, List.drop_left]

/-- No line that the bytes complete is a toggle. -/
def NoToggle (a : LineAssembler) (bytes : List UInt8) : Prop :=
  ∀ line ∈ (a.feed bytes).2, CompressionNegotiation.tryParse line = none

/-- What the transport is after some text that is no toggle: its stage and its replies are
the same, and the text is in the splitter. -/
structure Hears (t : CompressingLineTransport) (bytes : List UInt8)
    (u : CompressingLineTransport) : Prop where
  compression : u.compression = t.compression
  pendingReplies : u.pendingReplies = t.pendingReplies
  carry : u.carry = t.carry
  assembler : u.assembler = (t.assembler.feed bytes).1

theorem hears_feed (h : ∀ line ∈ (t.assembler.feed plain).2, Harmless t.compression line) :
    Hears t plain (t.feed plain) := by
  obtain ⟨h1, h2, h3⟩ := feed_harmless h
  exact ⟨h1, h2, congrArg Receiver.carry h3, congrArg Receiver.assembler h3⟩

theorem Hears.trans {bytes' : List UInt8} (h : Hears t bytes u) (h' : Hears u bytes' v) :
    Hears t (bytes ++ bytes') v := by
  refine ⟨h'.1.trans h.1, h'.2.trans h.2, h'.3.trans h.3, ?_⟩
  rw [h'.4, h.4, LineAssembler.feed_append]

/-- **Whole lines that are not armed** are taken as they are. They end where a line does, so the
splitter is as it was. -/
theorem takes_whole (hwhole : Whole bytes) (hrx : t.compression.rxActive = false)
    (hno : NoToggle t.assembler bytes) :
    ∃ ps u, Takes t bytes ps u ∧ taken ps = bytes.map (fun b => (false, b)) ∧
      Hears t bytes u := by
  induction hwhole generalizing t with
  | nil => exact ⟨[], t, .refl t, rfl, rfl, rfl, rfl, rfl⟩
  | @line body rest b hbody hb hrest ih =>
    have hsplit : body ++ b :: rest = (body ++ [b]) ++ rest := by simp
    rw [hsplit] at hno ⊢
    rw [NoToggle, LineAssembler.feed_append] at hno
    have hfirst : Hears t (body ++ [b]) (t.feed (body ++ [b])) :=
      hears_feed fun line hline => Or.inl (hno line (List.mem_append_left _ hline))
    have hturn := Takes.turn (t := t) (by simp) (by simp) (decodeInbound_line hrx hbody hb)
    obtain ⟨ps, u, htakes, htaken, hhears⟩ := ih (t := t.feed (body ++ [b]))
      (by rw [hfirst.compression, hrx]) (by
        rw [NoToggle, hfirst.assembler]
        exact fun line hline => hno line (List.mem_append_right _ hline))
    refine ⟨_, u, hturn.trans htakes, ?_, hfirst.trans hhears⟩
    rw [taken_append, htaken, List.map_append]
    simp [taken, hrx]

/-! ### A toggle -/

/-- A toggle, read while the side is not armed: the replies it owes, and the stage after it. -/
def hearToggle (t : CompressingLineTransport) : CompressingLineTransport :=
  { t with
    compression := { t.compression with rxActive := true, offered := true }
    assembler := ⟨[], true⟩
    pendingReplies := t.pendingReplies ++
      if t.compression.offered then [] else [CompressionNegotiation.toggle] }

/-- **A toggle is taken by two turns**, of which the second one completes it. From its last byte on
the side is armed, and owes a reply if it has not offered. -/
theorem takes_toggle (hrx : t.compression.rxActive = false) (hcurrent : t.assembler.current = []) :
    ∃ ps, Takes t CompressionNegotiation.toggle ps t.hearToggle ∧
      taken ps = CompressionNegotiation.toggle.map (fun b => (false, b)) ∧
        CompressionNegotiation.enable ∈ completed ps := by
  have hsplit : CompressionNegotiation.toggle =
      ([] ++ [0x0D]) ++ (encode CompressionNegotiation.enable ++ [0x0D]) := by decide
  have hbody : ∀ x ∈ encode CompressionNegotiation.enable, isTerminatorByte x = false := by
    decide +kernel
  -- the first CR ends a line that is empty
  have hcr : (t.assembler.feed ([] ++ [0x0D])) = (⟨[], true⟩, [[]]) := by
    rw [List.nil_append, LineAssembler.feed, if_neg (by simp), if_pos rfl, hcurrent]
    rfl
  have hempty : t.feed ([] ++ [0x0D]) = { t with assembler := ⟨[], true⟩ } := by
    rw [feed, hcr]
    rfl
  obtain ⟨w, hw⟩ : ∃ w, w = { t with assembler := ⟨[], true⟩ } := ⟨_, rfl⟩
  have hline : w.assembler.feed (encode CompressionNegotiation.enable ++ [0x0D]) =
      (⟨[], true⟩, [CompressionNegotiation.enable]) := by
    have hassembler : w.assembler = ⟨[], true⟩ := by rw [hw]
    rw [hassembler]
    decide +kernel
  have hparse : CompressionNegotiation.tryParse CompressionNegotiation.enable = some true := by
    decide
  have hheard : w.feed (encode CompressionNegotiation.enable ++ [0x0D]) = t.hearToggle := by
    rw [feed, hline, hw]
    dsimp only
    rw [List.foldl_cons, List.foldl_nil, queueAssembledLine, if_neg (by decide)]
    rw [tryApplyInboundToggle, hparse]
    dsimp only
    rcases hoffered : t.compression.offered with _ | _
    · simp [hearToggle, hoffered]
    · simp [hearToggle, hoffered]
  have hfirst : Takes t ([] ++ [0x0D]) [⟨t, [] ++ [0x0D], [] ++ [0x0D]⟩] w := by
    rw [hw, ← hempty]
    exact Takes.turn (by simp) (by simp) (decodeInbound_line hrx (by simp) rfl)
  have hsecond : Takes w (encode CompressionNegotiation.enable ++ [0x0D])
      [⟨w, encode CompressionNegotiation.enable ++ [0x0D],
        encode CompressionNegotiation.enable ++ [0x0D]⟩] t.hearToggle := by
    rw [← hheard]
    exact Takes.turn (by simp) (by simp) (decodeInbound_line (by rw [hw, hrx]) hbody rfl)
  have hrx' : w.compression.rxActive = false := by rw [hw, hrx]
  rw [hsplit]
  refine ⟨_, hfirst.trans hsecond, ?_, ?_⟩
  · simp [taken, hrx, hrx']
  · rw [completed_append]
    refine List.mem_append_right _ ?_
    simp only [completed, List.flatMap_cons, List.flatMap_nil, List.append_nil, hline,
      List.mem_singleton]

/-! ### Frames that are armed -/

/-- The bytes are a frame of the encoder. -/
def Framed (bytes : List UInt8) : Prop :=
  ∃ source, 1 ≤ source.length ∧ source.length ≤ 255 ∧ encodeFrame source = .ok bytes

/-- **What an armed side takes of a frame**: the frame, or the whole buffer. In either case no byte
of the frame is taken for one of another kind. -/
theorem decodeInbound_framed {c : HostLinkCompression} (hrx : c.rxActive = true)
    (hframed : Framed bytes) (rest : List UInt8) :
    ∃ source, source ≠ [] ∧ (c.decodeInbound (bytes ++ rest) = (source, rest) ∨
      c.decodeInbound (bytes ++ rest) = (source, [])) := by
  obtain ⟨source, hpos, hmax, hencode⟩ := hframed
  obtain ⟨frame, hencode', hcases⟩ := encodeFrame_spec hpos hmax
  rw [hencode] at hencode'
  obtain rfl : bytes = frame := Except.ok.inj hencode'
  rcases hcases with ⟨-, rfl⟩ | hframe
  · -- a stored frame takes all that follows it
    refine ⟨source ++ rest, ?_, Or.inr ?_⟩
    · exact List.append_ne_nil_of_left_ne_nil (List.length_pos_iff.mp hpos) rest
    · have hlen : 1 ≤ (source ++ rest).length := by
        rw [List.length_append]
        omega
      exact decodeInbound_stored hrx hlen
  · by_cases hlike : NoticeLike source
    · -- so does one that is taken for a notice
      have hnotice := (notice_append_iff hpos hmax hframe rest).mpr hlike
      refine ⟨bytes ++ rest, ?_, Or.inr (decodeInbound_notice hrx hnotice)⟩
      rintro hnil
      rw [hnil] at hnotice
      cases hnotice
    · exact ⟨source, List.length_pos_iff.mp hpos,
        Or.inl (decodeInbound_isFrame hrx hpos hmax hframe hlike rest)⟩

theorem Framed.ne_nil (h : Framed bytes) : bytes ≠ [] := by
  obtain ⟨source, hpos, hmax, hencode⟩ := h
  obtain ⟨frame, hencode', hcases⟩ := encodeFrame_spec hpos hmax
  rw [hencode] at hencode'
  obtain rfl : bytes = frame := Except.ok.inj hencode'
  rcases hcases with ⟨-, rfl⟩ | hframe
  · exact List.cons_ne_nil _ _
  · rintro rfl
    have hlen := hframe.length
    rw [List.length_nil] at hlen
    omega

/-- The lines switch nothing off. -/
def NoDisable (lines : List Text) : Prop :=
  ∀ line ∈ lines, CompressionNegotiation.tryParse line ≠ some false

/-- **Frames that an armed side reads** are taken armed, to the last byte, while no line switches
the compression off. The turns go frame by frame, whatever the guesses on the last one are. -/
theorem decodeBuffer_framed {frames : List (List UInt8)} (hframed : ∀ f ∈ frames, Framed f)
    (hrx : t.compression.rxActive = true) (hoffered : t.compression.offered = true) {turns : ℕ}
    (hturns : frames.flatten.length ≤ turns)
    (hno : NoDisable (completed (pieces turns t frames.flatten))) :
    (decodeBuffer turns t frames.flatten).compression = t.compression ∧
      (decodeBuffer turns t frames.flatten).pendingReplies = t.pendingReplies ∧
        (decodeBuffer turns t frames.flatten).carry = t.carry ∧
          taken (pieces turns t frames.flatten) = frames.flatten.map fun b => (true, b) := by
  induction frames generalizing t turns with
  | nil =>
    rw [List.flatten_nil, (decodeBuffer_nil turns t).1, (decodeBuffer_nil turns t).2]
    exact ⟨rfl, rfl, rfl, rfl⟩
  | cons frame frames ih =>
    have hframe := hframed frame (by simp)
    have hpos := List.length_pos_iff.mpr hframe.ne_nil
    rw [List.flatten_cons] at hturns hno ⊢
    rw [List.length_append] at hturns
    obtain ⟨turns, rfl⟩ : ∃ n, turns = n + 1 := Nat.exists_eq_add_one.mpr (by omega)
    have hharmless : ∀ plain, NoDisable (t.assembler.feed plain).2 →
        Hears t plain (t.feed plain) := by
      intro plain hplain
      refine hears_feed fun line hline => ?_
      rcases hparse : CompressionNegotiation.tryParse line with _ | _ | _
      · exact Or.inl hparse
      · exact absurd hparse (hplain line hline)
      · exact Or.inr ⟨hparse, hrx, hoffered⟩
    obtain ⟨source, hne, hdecode | hdecode⟩ :=
      decodeInbound_framed (c := t.compression) hrx hframe frames.flatten
    · obtain ⟨hstate, hpieces⟩ := decodeBuffer_turn hdecode hframe.ne_nil hne turns
      rw [hpieces] at hno
      have hheard := hharmless source fun line hline => hno line (by simp [completed, hline])
      have hrest : NoDisable (completed (pieces turns (t.feed source) frames.flatten)) := by
        intro line hline
        refine hno line ?_
        rw [← List.singleton_append, completed_append]
        exact List.mem_append_right _ hline
      have hlength : frames.flatten.length ≤ turns := by omega
      obtain ⟨h1, h2, h3, h4⟩ := ih (fun f hf => hframed f (List.mem_cons_of_mem _ hf))
        (by rw [hheard.compression, hrx]) (by rw [hheard.compression, hoffered]) hlength hrest
      rw [hstate, hpieces, ← List.singleton_append, taken_append, h4, List.map_append]
      refine ⟨h1.trans hheard.compression, h2.trans hheard.pendingReplies,
        h3.trans hheard.carry, ?_⟩
      simp [taken, hrx]
    · -- the whole buffer at once
      have hall : t.compression.decodeInbound ((frame ++ frames.flatten) ++ []) = (source, []) := by
        rw [List.append_nil, hdecode]
      obtain ⟨hstate, hpieces⟩ := decodeBuffer_turn hall
        (List.append_ne_nil_of_left_ne_nil hframe.ne_nil _) hne turns
      rw [List.append_nil, (decodeBuffer_nil turns _).1] at hstate
      rw [List.append_nil, (decodeBuffer_nil turns _).2] at hpieces
      rw [hpieces] at hno
      have hheard := hharmless source fun line hline => hno line (by simp [completed, hline])
      rw [hstate, hpieces]
      refine ⟨hheard.compression, hheard.pendingReplies, hheard.carry, ?_⟩
      simp [taken, hrx]

end CompressingLineTransport

end Convers
