import Convers.Host.HostLinkCompression

/-!
# The line transport

The transport between the lines of a link and its bytes. What is read is put behind the
bytes carried over, decoded piece by piece, split into lines, and the toggles among the
lines are applied and not surfaced.

What the receive side does depends on three fields only, and `Convers.Receiver` is the
machine on these: `Convers.CompressingLineTransport.surfaced_eq` says that the transport
surfaces what that machine hears. A read may end anywhere, and then the side guesses
whether what is left is the head of a frame (`Convers.HostLinkCompression.Held`). Where
no guess is made, or a right one (`Convers.Receiver.Certain`), a read and the next one
are as good as one (`Convers.Receiver.read_append`), so the lines do not depend on the
cuts (`Convers.CompressingLineTransport.surfacesSame_of_recognised`).
-/

namespace Convers

open Compression

/-- `CompressingLineTransport`. -/
structure CompressingLineTransport where
  /-- `_terminator`. -/
  terminator : Char
  /-- `_compression`. -/
  compression : HostLinkCompression
  /-- `_assembler`. -/
  assembler : LineAssembler
  /-- `_pending`. -/
  pending : List Text
  /-- `_pendingReplies`. -/
  pendingReplies : List (List UInt8)
  /-- `_carry`. -/
  carry : List UInt8
  deriving DecidableEq

namespace CompressingLineTransport

/-- The constructor, with the lines that are read already. -/
def new (terminator : Char) (bufferedLines : List Text) : CompressingLineTransport :=
  { terminator := terminator, compression := HostLinkCompression.fresh,
    assembler := LineAssembler.fresh, pending := bufferedLines, pendingReplies := [], carry := [] }

/-- `PrependBufferedLines`. -/
def prependBufferedLines (t : CompressingLineTransport) (lines : List Text) :
    CompressingLineTransport :=
  { t with pending := lines ++ t.pending }

/-- `QueueAssembledLine`. -/
def queueAssembledLine (t : CompressingLineTransport) (assembled : Text) :
    CompressingLineTransport :=
  if assembled.length = 0 then t
  else
    match t.compression.tryApplyInboundToggle assembled with
    | some (compression, reply) =>
      { t with compression := compression, pendingReplies := t.pendingReplies ++ reply.toList }
    | none => { t with pending := t.pending ++ [assembled] }

/-- The lines of a decoded text are routed one by one. -/
def feed (t : CompressingLineTransport) (plain : List UInt8) : CompressingLineTransport :=
  let (assembler, lines) := t.assembler.feed plain
  lines.foldl queueAssembledLine { t with assembler := assembler }

/-- The inner loop of `ReceiveLineAsync`: a buffer is decoded piece by piece. Every turn
but the last one shortens the buffer, so its length bounds the turns. -/
def decodeBuffer : ℕ → CompressingLineTransport → List UInt8 → CompressingLineTransport
  | 0, t, _ => t
  | turns + 1, t, buffer =>
    if buffer.length = 0 then t
    else
      let (plain, remainder) := t.compression.decodeInbound buffer
      if plain.length = 0 then { t with carry := remainder }
      else
        let t := t.feed plain
        if remainder.length < buffer.length then decodeBuffer turns t remainder
        else { t with carry := remainder }

/-- A read, up to the replies it owes. -/
def receiveRead (t : CompressingLineTransport) (raw : List UInt8) : CompressingLineTransport :=
  let buffer := t.carry ++ raw
  decodeBuffer buffer.length { t with carry := [] } buffer

/-- The replies are written, and the transmit side is armed behind each. -/
def writeReplies (t : CompressingLineTransport) : CompressingLineTransport × List (List UInt8) :=
  (if t.pendingReplies.length = 0 then t
    else { t with
      compression := t.compression.engageTransmitAfterReciprocal, pendingReplies := [] },
    t.pendingReplies)

/-- `ReceiveLineAsync`: the next line, nothing at the end of the stream, and the reads that
are left. -/
def receiveLine : CompressingLineTransport → List (List UInt8) →
    Option Text × CompressingLineTransport × List (List UInt8)
  | t, [] =>
    match t.pending with
    | line :: pending => (some line, { t with pending := pending }, [])
    | [] => (none, t, [])
  | t, raw :: reads =>
    match t.pending with
    | line :: pending => (some line, { t with pending := pending }, raw :: reads)
    | [] => receiveLine (t.receiveRead raw).writeReplies.1 reads

/-- What so many calls of `ReceiveLineAsync` answer. -/
def receiveLines : ℕ → CompressingLineTransport → List (List UInt8) → List (Option Text)
  | 0, _, _ => []
  | n + 1, t, reads =>
    let (line, t, reads) := t.receiveLine reads
    line :: receiveLines n t reads

end CompressingLineTransport

/-! ### The receive side alone -/

/-- **The receive side of a transport**: whether it is armed, the line so far, and the bytes
carried over. -/
structure Receiver where
  armed : Bool
  assembler : LineAssembler
  carry : List UInt8
  deriving DecidableEq

namespace Receiver

/-- The lines of a text, routed: whether the side is armed behind them, and those that are
surfaced. -/
def route : Bool → List Text → Bool × List Text
  | armed, [] => (armed, [])
  | armed, line :: lines =>
    if line.length = 0 then route armed lines
    else
      match CompressionNegotiation.tryParse line with
      | some enabled => route enabled lines
      | none =>
        let (armed, surfaced) := route armed lines
        (armed, line :: surfaced)

section Route

variable {armed enabled : Bool} {line : Text} (lines : List Text)

theorem route_blank (hlen : line.length = 0) : route armed (line :: lines) = route armed lines := by
  rw [route, if_pos hlen]

theorem route_toggle (hlen : line.length ≠ 0)
    (htoggle : CompressionNegotiation.tryParse line = some enabled) :
    route armed (line :: lines) = route enabled lines := by
  rw [route, if_neg hlen, htoggle]

theorem route_text (hlen : line.length ≠ 0)
    (htext : CompressionNegotiation.tryParse line = none) :
    route armed (line :: lines) = ((route armed lines).1, line :: (route armed lines).2) := by
  rw [route, if_neg hlen, htext]

end Route

/-- A text is heard: the side after it, and the lines that are surfaced. -/
def hear (r : Receiver) (plain : List UInt8) : Receiver × List Text :=
  let (assembler, lines) := r.assembler.feed plain
  let (armed, surfaced) := route r.armed lines
  ({ r with armed := armed, assembler := assembler }, surfaced)

/-- The stage of a receive side. -/
def stage (r : Receiver) : HostLinkCompression := ⟨false, r.armed, false⟩

/-- A buffer is decoded piece by piece. -/
def decodeBuffer : ℕ → Receiver → List UInt8 → Receiver × List Text
  | 0, r, _ => (r, [])
  | turns + 1, r, buffer =>
    if buffer.length = 0 then (r, [])
    else
      let (plain, remainder) := r.stage.decodeInbound buffer
      if plain.length = 0 then ({ r with carry := remainder }, [])
      else
        let (r, lines) := r.hear plain
        if remainder.length < buffer.length then
          let (r, more) := decodeBuffer turns r remainder
          (r, lines ++ more)
        else ({ r with carry := remainder }, lines)

/-- A read. -/
def read (r : Receiver) (raw : List UInt8) : Receiver × List Text :=
  let buffer := r.carry ++ raw
  decodeBuffer buffer.length { r with carry := [] } buffer

/-- The reads of a stream: the side after them, and all lines they surface. -/
def readAll : Receiver → List (List UInt8) → Receiver × List Text
  | r, [] => (r, [])
  | r, raw :: reads =>
    let (r, lines) := r.read raw
    let (r, more) := readAll r reads
    (r, lines ++ more)

end Receiver

namespace CompressingLineTransport

variable (t : CompressingLineTransport)

/-- The receive side of a transport. -/
def receiver : Receiver := ⟨t.compression.rxActive, t.assembler, t.carry⟩

/-- Decoding looks at the receive side only. -/
theorem decodeInbound_stage (bytes : List UInt8) :
    t.receiver.stage.decodeInbound bytes = t.compression.decodeInbound bytes := rfl

/-- The lines of a text are routed by the receive side. -/
theorem foldl_queueAssembledLine (lines : List Text) :
    (lines.foldl queueAssembledLine t).compression.rxActive =
        (Receiver.route t.compression.rxActive lines).1 ∧
      (lines.foldl queueAssembledLine t).assembler = t.assembler ∧
      (lines.foldl queueAssembledLine t).carry = t.carry ∧
      (lines.foldl queueAssembledLine t).pending =
        t.pending ++ (Receiver.route t.compression.rxActive lines).2 := by
  induction lines generalizing t with
  | nil => exact ⟨rfl, rfl, rfl, (List.append_nil _).symm⟩
  | cons line lines ih =>
    obtain ⟨h1, h2, h3, h4⟩ := ih (t.queueAssembledLine line)
    rw [List.foldl_cons, h1, h2, h3, h4, queueAssembledLine]
    by_cases hlen : line.length = 0
    · rw [if_pos hlen, Receiver.route_blank lines hlen]
      exact ⟨rfl, rfl, rfl, rfl⟩
    · rw [if_neg hlen]
      rcases htoggle : t.compression.tryApplyInboundToggle line with _ | ⟨compression, reply⟩
      · have htext := HostLinkCompression.tryApplyInboundToggle_eq_none.mp htoggle
        rw [Receiver.route_text lines hlen htext]
        exact ⟨rfl, rfl, rfl, by rw [List.append_assoc]; rfl⟩
      · have hrx := HostLinkCompression.rxActive_of_toggle htoggle
        rw [Receiver.route_toggle lines hlen hrx]
        exact ⟨rfl, rfl, rfl, rfl⟩

/-- A text is heard by the receive side. -/
theorem feed_eq (plain : List UInt8) :
    (t.feed plain).receiver = (t.receiver.hear plain).1 ∧
      (t.feed plain).pending = t.pending ++ (t.receiver.hear plain).2 := by
  obtain ⟨h1, h2, h3, h4⟩ := foldl_queueAssembledLine
    { t with assembler := (t.assembler.feed plain).1 } (t.assembler.feed plain).2
  refine ⟨?_, h4⟩
  exact Receiver.mk.injEq .. |>.mpr ⟨h1, h2, h3⟩

/-- A buffer is decoded by the receive side. -/
theorem decodeBuffer_eq (turns : ℕ) (buffer : List UInt8) :
    (decodeBuffer turns t buffer).receiver = (t.receiver.decodeBuffer turns buffer).1 ∧
      (decodeBuffer turns t buffer).pending =
        t.pending ++ (t.receiver.decodeBuffer turns buffer).2 := by
  induction turns generalizing t buffer with
  | zero => exact ⟨rfl, (List.append_nil _).symm⟩
  | succ turns ih =>
    rw [decodeBuffer, Receiver.decodeBuffer, decodeInbound_stage]
    split
    · exact ⟨rfl, (List.append_nil _).symm⟩
    · rcases t.compression.decodeInbound buffer with ⟨plain, remainder⟩
      dsimp only
      obtain ⟨hreceiver, hpending⟩ := t.feed_eq plain
      split
      · exact ⟨rfl, (List.append_nil _).symm⟩
      · split
        · obtain ⟨h1, h2⟩ := ih (t.feed plain) remainder
          rw [hreceiver] at h1 h2
          refine ⟨h1, ?_⟩
          rw [h2, hpending, List.append_assoc]
        · refine ⟨?_, hpending⟩
          rw [← hreceiver]
          rfl

/-- A read is one of the receive side. -/
theorem receiveRead_eq (raw : List UInt8) :
    (t.receiveRead raw).writeReplies.1.receiver = (t.receiver.read raw).1 ∧
      (t.receiveRead raw).writeReplies.1.pending = t.pending ++ (t.receiver.read raw).2 := by
  have hreplies : ∀ u : CompressingLineTransport, u.writeReplies.1.receiver = u.receiver ∧
      u.writeReplies.1.pending = u.pending := by
    intro u
    unfold writeReplies
    dsimp only
    split <;> exact ⟨rfl, rfl⟩
  obtain ⟨h1, h2⟩ := hreplies (t.receiveRead raw)
  rw [h1, h2]
  exact decodeBuffer_eq { t with carry := [] } (t.carry ++ raw).length (t.carry ++ raw)

/-- All lines that a transport surfaces from some reads. -/
def surfaced (reads : List (List UInt8)) : List Text :=
  t.pending ++ (t.receiver.readAll reads).2

/-- **A call takes the first line there is**, and leaves the others. The reads it takes are those it
needs for the line, so the calls never lose a byte. -/
theorem receiveLine_eq (reads : List (List UInt8)) :
    (t.receiveLine reads).1 = (t.surfaced reads).head? ∧
      (t.receiveLine reads).2.1.surfaced (t.receiveLine reads).2.2 = (t.surfaced reads).tail := by
  induction reads generalizing t with
  | nil =>
    rw [receiveLine]
    rcases hp : t.pending with _ | ⟨line, pending⟩
    · simp [surfaced, hp, Receiver.readAll]
    · simp [surfaced, hp, Receiver.readAll]
  | cons raw reads ih =>
    rw [receiveLine]
    rcases hp : t.pending with _ | ⟨line, pending⟩
    · obtain ⟨hreceiver, hpending⟩ := t.receiveRead_eq raw
      have hsame :
          (t.receiveRead raw).writeReplies.1.surfaced reads = t.surfaced (raw :: reads) := by
        rw [surfaced, surfaced, hreceiver, hpending, hp, List.nil_append, List.nil_append]
        rfl
      rw [← hsame]
      exact ih _
    · simp only [surfaced, hp, List.cons_append, List.head?_cons, List.tail_cons, true_and]
      rfl

/-- **The transport surfaces what its receive side hears**, line by line. Transports can so be
compared by what they surface, without a look at the calls. -/
theorem surfaced_eq {t t' : CompressingLineTransport} {reads reads' : List (List UInt8)}
    (hsame : t.surfaced reads = t'.surfaced reads') (n : ℕ) :
    t.receiveLines n reads = t'.receiveLines n reads' := by
  induction n generalizing t t' reads reads' with
  | zero => rfl
  | succ n ih =>
    obtain ⟨h1, h2⟩ := t.receiveLine_eq reads
    obtain ⟨h1', h2'⟩ := t'.receiveLine_eq reads'
    rw [receiveLines, receiveLines]
    dsimp only
    rw [h1, h1', hsame, ih (h2.trans ((congrArg List.tail hsame).trans h2'.symm))]

end CompressingLineTransport

/-! ### Frames cut into reads -/

namespace HostLinkCompression

/-- **The head of a frame is recognised**: it has fewer bytes than a frame of the declared
length, and with a zero byte behind it it is not the code of so many symbols. -/
def Held (head : List UInt8) : Prop :=
  isLikelyTruncatedFrame head = true ∧ tryDecodeFrame head = none

instance (head : List UInt8) : Decidable (Held head) := inferInstanceAs (Decidable (_ ∧ _))

/-- A frame that is coded, and does not look like a notice. -/
structure Coded (source frame : List UInt8) : Prop where
  pos : 1 ≤ source.length
  max : source.length ≤ 255
  isFrame : IsFrame source frame
  notNotice : ¬NoticeLike source

variable {c : HostLinkCompression} {source frame head : List UInt8}

/-- A frame of the encoder that is not stored, and does not start as a notice does. -/
theorem coded_of_encodeFrame (hencode : encodeFrame source = .ok frame)
    (hstored : frame.head? ≠ some storedMarker)
    (hnotice : ¬systemNoticePrefix <+: frame) : Coded source frame := by
  have hlength : 1 ≤ source.length ∧ source.length ≤ 255 := by
    rw [encodeFrame] at hencode
    split at hencode
    · cases hencode
    · rename_i hin
      simp only [maxFrameLength] at hin
      omega
  obtain ⟨frame', hencode', hcases⟩ := encodeFrame_spec hlength.1 hlength.2
  rw [hencode] at hencode'
  obtain rfl : frame = frame' := Except.ok.inj hencode'
  rcases hcases with ⟨-, rfl⟩ | hframe
  · exact absurd rfl hstored
  · refine ⟨hlength.1, hlength.2, hframe, fun hlike => hnotice ?_⟩
    exact List.isPrefixOf_iff_prefix.mp ((notice_iff hlength.1 hlength.2 hframe).mpr hlike)

theorem Coded.frame_ne_nil (h : Coded source frame) : frame ≠ [] := by
  rintro rfl
  have hlen := h.isFrame.length
  rw [List.length_nil] at hlen
  omega

/-- **A complete frame** of a source: an armed stage takes it off any buffer it is at the front
of, whatever follows. -/
structure Complete (source frame : List UInt8) : Prop where
  source_ne_nil : source ≠ []
  frame_ne_nil : frame ≠ []
  taken : ∀ (c : HostLinkCompression) (rest : List UInt8), c.rxActive = true →
    c.decodeInbound (frame ++ rest) = (source, rest)

/-- A coded frame is complete. -/
theorem Coded.complete (h : Coded source frame) : Complete source frame where
  source_ne_nil := List.length_pos_iff.mp h.pos
  frame_ne_nil := h.frame_ne_nil
  taken _ rest hrx := decodeInbound_isFrame hrx h.pos h.max h.isFrame h.notNotice rest

/-- **A head is carried over iff it is recognised**; any other is taken for a frame or for text. The
guess of the source is exact in this sense, and this is all there is to it. -/
theorem decodeInbound_held_iff (hrx : c.rxActive = true) (hne : head ≠ [])
    (hnotice : systemNoticePrefix.isPrefixOf head = false) :
    c.decodeInbound head = ([], head) ↔ Held head := by
  have hlen : head.length ≠ 0 := by simpa using hne
  rw [decodeInbound, if_neg hlen, if_neg (by simp [hrx]), if_neg (by simp [hnotice]), Held]
  rcases hdecode : tryDecodeFrame head with _ | ⟨decoded, consumed⟩
  · dsimp only
    split
    · rename_i hlikely
      exact iff_of_true rfl ⟨hlikely, rfl⟩
    · rename_i hlikely
      exact iff_of_false (fun heq => hne (congrArg Prod.fst heq)) fun hheld => hlikely hheld.1
  · -- what is decoded takes at least a byte
    have hpos := consumed_pos hdecode
    dsimp only
    rw [if_pos hpos]
    refine iff_of_false (fun heq => ?_) (by rintro ⟨-, ⟨⟩⟩)
    have hrest := congrArg (fun answer => answer.2.length) heq
    dsimp only at hrest
    split at hrest
    · rw [List.length_drop] at hrest
      omega
    · exact hlen hrest.symm

/-- **A turn of a stage** carries the whole buffer over, or takes something off its front. The loop
over a buffer therefore ends, with as many turns as there are bytes. -/
theorem decodeInbound_progress (c : HostLinkCompression) {buffer : List UInt8}
    (hne : buffer ≠ []) :
    c.decodeInbound buffer = ([], buffer) ∨
      ((c.decodeInbound buffer).1 ≠ [] ∧ (c.decodeInbound buffer).2.length < buffer.length) := by
  have hlen : 0 < buffer.length := List.length_pos_iff.mpr hne
  have hall : buffer ≠ [] ∧ ([] : List UInt8).length < buffer.length := ⟨hne, hlen⟩
  rw [decodeInbound, if_neg (by omega)]
  split
  · split
    · exact Or.inr hall
    · split
      · exact Or.inr hall
      · refine Or.inr ⟨?_, ?_⟩
        · rw [Ne, List.take_eq_nil_iff]
          simpa using hne
        · rw [List.length_drop]
          omega
  · split
    · exact Or.inr hall
    · split
      · rename_i decoded consumed hdecode
        have hpos := consumed_pos hdecode
        rw [if_pos hpos]
        refine Or.inr ⟨decoded_ne_nil hdecode, ?_⟩
        dsimp only
        split
        · rw [List.length_drop]
          omega
        · exact hlen
      · split
        · exact Or.inl rfl
        · exact Or.inr hall

/-- A stage that is not armed takes the byte at the front with the line it begins. -/
theorem decodeInbound_cons_not_armed (hrx : c.rxActive = false) {b : UInt8}
    (hb : isTerminatorByte b = false) {bytes : List UInt8} (hne : bytes ≠ []) :
    c.decodeInbound (b :: bytes) =
      (b :: (c.decodeInbound bytes).1, (c.decodeInbound bytes).2) := by
  have hlen : 0 < bytes.length := List.length_pos_iff.mpr hne
  rw [decodeInbound, if_neg (by simp), if_pos (by simp [hrx]), decodeInbound, if_neg (by omega),
    if_pos (by simp [hrx]), List.findIdx?_cons, hb]
  rcases bytes.findIdx? isTerminatorByte with _ | term
  · rfl
  · simp only [Option.map_some, Bool.false_eq_true, if_false, List.length_cons]
    by_cases hend : term = bytes.length - 1
    · rw [if_pos hend, if_pos (by omega)]
    · rw [if_neg hend, if_neg (by omega)]
      rfl

end HostLinkCompression

open HostLinkCompression

namespace Receiver

variable {r : Receiver}

/-- Routing twice. -/
theorem route_append (armed : Bool) (x y : List Text) :
    route armed (x ++ y) = ((route (route armed x).1 y).1,
      (route armed x).2 ++ (route (route armed x).1 y).2) := by
  induction x generalizing armed with
  | nil => rfl
  | cons line x ih =>
    rw [List.cons_append]
    by_cases hlen : line.length = 0
    · rw [route_blank _ hlen, route_blank _ hlen, ih]
    · rcases htoggle : CompressionNegotiation.tryParse line with _ | enabled
      · rw [route_text _ hlen htoggle, route_text _ hlen htoggle, ih]
        rfl
      · rw [route_toggle _ hlen htoggle, route_toggle _ hlen htoggle, ih]

/-- **Hearing twice.** Text that is decoded in pieces is heard as one. -/
theorem hear_append (r : Receiver) (x y : List UInt8) :
    r.hear (x ++ y) = (((r.hear x).1.hear y).1, (r.hear x).2 ++ ((r.hear x).1.hear y).2) := by
  simp only [hear, LineAssembler.feed_append, route_append]

theorem hear_nil (r : Receiver) : r.hear [] = (r, []) := rfl

/-- The text arms no side: none of its lines is an offer. -/
def Silent (r : Receiver) (text : List UInt8) : Prop :=
  ∀ line ∈ (r.assembler.feed text).2, CompressionNegotiation.tryParse line ≠ some true

/-- A side that is not armed stays so while no line is an offer. -/
theorem route_not_armed {lines : List Text}
    (h : ∀ line ∈ lines, CompressionNegotiation.tryParse line ≠ some true) :
    (route false lines).1 = false := by
  induction lines with
  | nil => rfl
  | cons line lines ih =>
    have hrest := ih fun l hl => h l (List.mem_cons_of_mem _ hl)
    by_cases hlen : line.length = 0
    · rw [route_blank _ hlen, hrest]
    · rcases htoggle : CompressionNegotiation.tryParse line with _ | _ | _
      · rw [route_text _ hlen htoggle]
        exact hrest
      · rw [route_toggle _ hlen htoggle, hrest]
      · exact absurd htoggle (h line (by simp))

theorem hear_not_armed (harmed : r.armed = false) {text : List UInt8} (hsilent : r.Silent text) :
    (r.hear text).1.armed = false := by
  simp only [hear, harmed]
  exact route_not_armed hsilent

theorem silent_append {x y : List UInt8} :
    r.Silent (x ++ y) ↔ r.Silent x ∧ (r.hear x).1.Silent y := by
  simp only [Silent, hear, LineAssembler.feed_append, List.mem_append, or_imp, forall_and]

/-- What a side that is not armed takes of a buffer: some of it, as it is. -/
theorem decodeInbound_not_armed {c : HostLinkCompression} (hrx : c.rxActive = false)
    {buffer : List UInt8} (hne : buffer ≠ []) :
    (c.decodeInbound buffer).1 ++ (c.decodeInbound buffer).2 = buffer ∧
      (c.decodeInbound buffer).1 ≠ [] := by
  rw [decodeInbound, if_neg (by simpa using hne), if_pos (by simp [hrx])]
  split
  · exact ⟨List.append_nil _, hne⟩
  · split
    · exact ⟨List.append_nil _, hne⟩
    · refine ⟨List.take_append_drop _ _, ?_⟩
      rw [Ne, List.take_eq_nil_iff]
      simpa using hne

/-- **A side that is not armed hears its buffer as text.** No byte of it is looked at twice,
whatever is behind it. -/
theorem decodeBuffer_not_armed (harmed : r.armed = false) {buffer : List UInt8}
    (hsilent : r.Silent buffer) {turns : ℕ} (hturns : buffer.length ≤ turns) :
    r.decodeBuffer turns buffer = r.hear buffer := by
  induction turns generalizing r buffer with
  | zero =>
    rw [List.eq_nil_of_length_eq_zero (Nat.le_zero.mp hturns)]
    rfl
  | succ turns ih =>
    rw [decodeBuffer]
    by_cases hlen : buffer.length = 0
    · rw [if_pos hlen, List.eq_nil_of_length_eq_zero hlen, hear_nil]
    · rw [if_neg hlen]
      obtain ⟨hsplit, hne⟩ := decodeInbound_not_armed (c := r.stage) harmed
        (List.length_pos_iff.mp (Nat.pos_of_ne_zero hlen))
      rcases hdecode : r.stage.decodeInbound buffer with ⟨plain, remainder⟩
      rw [hdecode] at hsplit hne
      dsimp only at hsplit hne ⊢
      have hpos : 0 < plain.length := List.length_pos_iff.mpr hne
      have hlength := congrArg List.length hsplit
      rw [List.length_append] at hlength
      rw [← hsplit, silent_append] at hsilent
      rw [if_neg (by omega), if_pos (by omega),
        ih (hear_not_armed harmed hsilent.1) hsilent.2 (by omega), ← hsplit, hear_append]

/-! ### Where a read may end -/

variable {buffer bytes : List UInt8}

/-- A buffer is decoded to its end. -/
def decode (r : Receiver) (buffer : List UInt8) : Receiver × List Text :=
  r.decodeBuffer buffer.length buffer

theorem decode_nil (r : Receiver) : r.decode [] = (r, []) := rfl

theorem read_eq_decode (r : Receiver) (raw : List UInt8) :
    r.read raw = ({ r with carry := [] } : Receiver).decode (r.carry ++ raw) := rfl

/-- There are no more turns than bytes. -/
theorem decodeBuffer_eq_decode {turns : ℕ} (hturns : buffer.length ≤ turns) :
    r.decodeBuffer turns buffer = r.decode buffer := by
  rw [decode]
  generalize hlength : buffer.length = length
  have hle : buffer.length ≤ length := hlength.le
  rw [hlength] at hturns
  clear hlength
  induction length generalizing turns r buffer with
  | zero =>
    obtain rfl := List.eq_nil_of_length_eq_zero (Nat.le_zero.mp hle)
    cases turns <;> rfl
  | succ length ih =>
    obtain ⟨turns, rfl⟩ : ∃ n, turns = n + 1 := Nat.exists_eq_add_one.mpr (by omega)
    rw [decodeBuffer, decodeBuffer]
    split
    · rfl
    · dsimp only
      split
      · rfl
      · split
        · rw [ih (by omega) (by omega)]
        · rfl

/-- A buffer that is carried over. -/
theorem decode_of_held (h : r.stage.decodeInbound buffer = ([], buffer)) :
    r.decode buffer = ({ r with carry := buffer }, []) ∨ buffer = [] := by
  rcases buffer with _ | ⟨b, bytes⟩
  · exact Or.inr rfl
  · refine Or.inl ?_
    rw [decode, List.length_cons, decodeBuffer, if_neg (by simp), h]
    rfl

/-- A buffer that something is taken off. -/
theorem decode_of_taken {plain remainder : List UInt8}
    (h : r.stage.decodeInbound buffer = (plain, remainder)) (hplain : plain ≠ [])
    (hless : remainder.length < buffer.length) :
    r.decode buffer = (((r.hear plain).1.decode remainder).1,
      (r.hear plain).2 ++ ((r.hear plain).1.decode remainder).2) := by
  have hpos : plain.length ≠ 0 := by simpa using hplain
  obtain ⟨turns, hturns⟩ : ∃ n, buffer.length = n + 1 := Nat.exists_eq_add_one.mpr (by omega)
  rw [decode, hturns, decodeBuffer, if_neg (by omega), h]
  dsimp only
  rw [if_neg hpos, if_pos hless, decodeBuffer_eq_decode (by omega)]

/-- **Reading nothing changes nothing**, behind any read. An empty read may end anywhere, so no
condition is put on it. -/
theorem read_nil_decode (hcarry : r.carry = []) (buffer : List UInt8) :
    (r.decode buffer).1.read [] = ((r.decode buffer).1, []) := by
  generalize hlength : buffer.length = length
  induction length using Nat.strong_induction_on generalizing r buffer with
  | _ length ih =>
    have hclean : ({ r with carry := [] } : Receiver) = r := by rw [← hcarry]
    rcases eq_or_ne buffer [] with rfl | hne
    · rw [decode_nil, read_eq_decode, hclean, hcarry]
      rfl
    · have hprogress := r.stage.decodeInbound_progress hne
      rcases hinbound : r.stage.decodeInbound buffer with ⟨plain, remainder⟩
      rw [hinbound] at hprogress
      rcases hprogress with hheld | ⟨hplain, hless⟩
      · -- what is carried over is carried over again
        have hdecode := (decode_of_held (hinbound.trans hheld)).resolve_right hne
        rw [hdecode, read_eq_decode]
        dsimp only
        rw [hclean, List.append_nil, hdecode]
      · rw [decode_of_taken hinbound hplain hless]
        exact ih _ (hlength ▸ hless) (r := (r.hear plain).1) hcarry remainder rfl

/-- A byte that a side hears without being armed. -/
theorem decode_text (harmed : r.armed = false) (b : UInt8) (bytes : List UInt8) :
    r.decode (b :: bytes) = (((r.hear [b]).1.decode bytes).1,
      (r.hear [b]).2 ++ ((r.hear [b]).1.decode bytes).2) := by
  have hrx : r.stage.rxActive = false := harmed
  rcases hb : isTerminatorByte b with _ | _
  · rcases eq_or_ne bytes [] with rfl | hne
    · exact decode_of_taken (by rw [decodeInbound]; simp [hrx, hb]) (by simp) (by simp)
    · -- no line ends with the byte, so the rest of the line is taken as it would be alone
      have hkept : (r.hear [b]).1.stage = r.stage ∧ (r.hear [b]).2 = [] := by
        simp only [isTerminatorByte, Bool.or_eq_false_iff, decide_eq_false_iff_not] at hb
        simp [hear, stage, LineAssembler.feed, hb.1, hb.2, route]
      have hstep := decodeInbound_cons_not_armed hrx hb hne
      obtain ⟨hsplit, hplain⟩ := decodeInbound_not_armed hrx hne
      rcases hinbound : r.stage.decodeInbound bytes with ⟨plain, remainder⟩
      rw [hinbound] at hstep hsplit hplain
      have hlength := congrArg List.length hsplit
      have hpos := List.length_pos_iff.mpr hplain
      rw [List.length_append] at hlength
      dsimp only at hstep hplain hlength hpos
      rw [decode_of_taken hstep (by simp) (by rw [List.length_cons]; omega),
        decode_of_taken (r := (r.hear [b]).1) (hkept.1 ▸ hinbound) hplain (by omega),
        ← List.singleton_append, hear_append]
      simp only [List.append_assoc]
  · refine decode_of_taken ?_ (by simp) (by simp)
    rw [decodeInbound, if_neg (by simp), if_pos (by simp [hrx]), List.findIdx?_cons, hb]
    rcases bytes with _ | ⟨b', bytes⟩
    · rfl
    · simp

/-- **A side is certain of some bytes**, whatever follows them: it hears a byte where it is not
armed, takes a complete frame where it is, and what is left then is nothing, or a head that
it recognises and carries over. -/
inductive Certain : Receiver → List UInt8 → Prop where
  | nothing (r : Receiver) : Certain r []
  | text {r : Receiver} {b : UInt8} {bytes : List UInt8} (harmed : r.armed = false)
      (h : Certain (r.hear [b]).1 bytes) : Certain r (b :: bytes)
  | frame {r : Receiver} {source frame bytes : List UInt8} (harmed : r.armed = true)
      (hframe : Complete source frame) (h : Certain (r.hear source).1 bytes) :
      Certain r (frame ++ bytes)
  | head {r : Receiver} {head : List UInt8} (harmed : r.armed = true) (hheld : Held head)
      (hnotice : systemNoticePrefix.isPrefixOf head = false) : Certain r head

/-- A complete frame in front of a buffer. -/
theorem decode_frame (harmed : r.armed = true) {source frame : List UInt8}
    (hframe : Complete source frame) (bytes : List UInt8) :
    r.decode (frame ++ bytes) = (((r.hear source).1.decode bytes).1,
      (r.hear source).2 ++ ((r.hear source).1.decode bytes).2) := by
  refine decode_of_taken (hframe.taken r.stage bytes harmed) hframe.source_ne_nil ?_
  have hpos := List.length_pos_iff.mpr hframe.frame_ne_nil
  rw [List.length_append]
  omega

/-- **A buffer may be cut where the side is certain.** The induction is on why the side is certain;
behind a head that is carried over the next read starts with it. -/
theorem decode_append (h : r.Certain bytes) (hcarry : r.carry = []) (more : List UInt8) :
    r.decode (bytes ++ more) = (((r.decode bytes).1.read more).1,
      (r.decode bytes).2 ++ ((r.decode bytes).1.read more).2) := by
  induction h with
  | nothing r =>
    have hclean : ({ r with carry := [] } : Receiver) = r := by rw [← hcarry]
    rw [decode_nil, read_eq_decode, hclean, hcarry]
    rfl
  | text harmed h ih =>
    rw [List.cons_append, decode_text harmed, decode_text harmed, ih hcarry]
    simp only [List.append_assoc]
  | frame harmed hframe h ih =>
    rw [List.append_assoc, decode_frame harmed hframe, decode_frame harmed hframe, ih hcarry]
    simp only [List.append_assoc]
  | @head r head harmed hheld hnotice =>
    have hclean : ({ r with carry := [] } : Receiver) = r := by rw [← hcarry]
    rcases eq_or_ne head [] with rfl | hne
    · rw [decode_nil, read_eq_decode, hclean, hcarry]
      rfl
    · have hkept := (decodeInbound_held_iff (c := r.stage) harmed hne hnotice).mpr hheld
      rw [(decode_of_held hkept).resolve_right hne, read_eq_decode]
      dsimp only
      rw [hclean, List.nil_append]

/-- **Two reads are as good as one**, if the side is certain where the first one ends. Reads are
joined by it one by one, until there is one read for a whole stretch. -/
theorem read_append {raw : List UInt8}
    (h : ({ r with carry := [] } : Receiver).Certain (r.carry ++ raw)) (more : List UInt8) :
    r.read (raw ++ more) =
      (((r.read raw).1.read more).1, (r.read raw).2 ++ ((r.read raw).1.read more).2) := by
  rw [read_eq_decode, ← List.append_assoc, decode_append h rfl more]
  rfl

/-- A frame behind bytes after which the side is armed and has nothing left. -/
theorem Certain.append_frame (h : r.Certain bytes) (hcarry : r.carry = [])
    (harmed : (r.decode bytes).1.armed = true) (hnone : (r.decode bytes).1.carry = [])
    {source frame : List UInt8} (hframe : Complete source frame) :
    r.Certain (bytes ++ frame) := by
  induction h with
  | nothing r =>
    rw [List.nil_append, ← List.append_nil frame]
    exact .frame harmed hframe (.nothing _)
  | text hnot h ih =>
    rw [decode_text hnot] at harmed hnone
    exact .text hnot (ih hcarry harmed hnone)
  | frame harmed' hframe' h ih =>
    rw [decode_frame harmed' hframe'] at harmed hnone
    rw [List.append_assoc]
    exact .frame harmed' hframe' (ih hcarry harmed hnone)
  | @head r head harmed' hheld hnotice =>
    obtain rfl : head = [] := by
      by_contra hne
      have hkept := (decodeInbound_held_iff (c := r.stage) harmed' hne hnotice).mpr hheld
      rw [(decode_of_held hkept).resolve_right hne] at hnone
      exact hne hnone
    rw [List.nil_append, ← List.append_nil frame]
    exact .frame harmed' hframe (.nothing _)

/-! ### The reads of a stream -/

theorem readAll_append (r : Receiver) (xs ys : List (List UInt8)) :
    r.readAll (xs ++ ys) = (((r.readAll xs).1.readAll ys).1,
      (r.readAll xs).2 ++ ((r.readAll xs).1.readAll ys).2) := by
  induction xs generalizing r with
  | nil => rfl
  | cons raw xs ih => simp only [List.cons_append, readAll, ih, List.append_assoc]

/-- The side is certain wherever one of the reads ends before the last of their bytes. -/
def CertainWithin (r : Receiver) (reads : List (List UInt8)) : Prop :=
  ∀ before after, reads = before ++ after → after.flatten ≠ [] → r.Certain before.flatten

/-- **Reads that end where the side is certain** are as good as one. Two ways of cutting the same
bytes are then compared through the one read. -/
theorem readAll_eq_decode (hcarry : r.carry = []) {reads : List (List UInt8)}
    (h : r.CertainWithin reads) : r.readAll reads = r.decode reads.flatten := by
  have hclean : ({ r with carry := [] } : Receiver) = r := by rw [← hcarry]
  induction reads using List.reverseRecOn with
  | nil => rfl
  | append_singleton reads raw ih =>
    have hbefore : r.CertainWithin reads := by
      rintro before after rfl hne
      refine h before (after ++ [raw]) (List.append_assoc ..) ?_
      rw [List.flatten_append]
      exact List.append_ne_nil_of_left_ne_nil hne _
    rw [readAll_append, ih hbefore, List.flatten_append, List.flatten_singleton]
    simp only [readAll, List.append_nil]
    rcases eq_or_ne raw [] with rfl | hne
    · rw [read_nil_decode hcarry, List.append_nil, List.append_nil]
    · rw [decode_append (h reads [raw] rfl (by simpa using hne)) hcarry]

/-- A side that takes a frame at once: it is armed, and nothing is left before it. -/
def Ready (r : Receiver) : Prop := r.armed = true ∧ r.carry = []

instance (r : Receiver) : Decidable r.Ready := inferInstanceAs (Decidable (_ ∧ _))

/-- **The cuts are recognised.** Up to a point from which on each frame is a read, every read
ends at the end of a frame or where the side is certain, and every frame finds the side
ready or ends where it is certain. -/
def Recognised (r : Receiver) (frames reads : List (List UInt8)) : Prop :=
  ∃ xs ys zs, frames = xs ++ zs ∧ reads = ys ++ zs ∧
    (∀ before frame after, xs = before ++ frame :: after → after.flatten ≠ [] →
      (r.decode before.flatten).1.Ready ∨ r.Certain (before.flatten ++ frame)) ∧
    ∀ before after, ys = before ++ after → after.flatten ≠ [] →
      (∃ gs hs, xs = gs ++ hs ∧ gs.flatten = before.flatten) ∨ r.Certain before.flatten

/-- **A side is certain at the end of complete frames** that find it ready. So a stream of frames
may be cut between any two of them, and nothing is asked of such a cut. -/
theorem certainWithin_frames (hcarry : r.carry = []) {frames : List (List UInt8)}
    (hcomplete : ∀ frame ∈ frames, ∃ source, Complete source frame)
    (hready : ∀ before frame after, frames = before ++ frame :: after → after.flatten ≠ [] →
      (r.decode before.flatten).1.Ready ∨ r.Certain (before.flatten ++ frame)) :
    r.CertainWithin frames := by
  intro before
  induction before using List.reverseRecOn with
  | nil => exact fun _ _ _ => .nothing r
  | append_singleton before frame ih =>
    intro after hframes hafter
    rw [List.append_assoc, List.singleton_append] at hframes
    rw [List.flatten_append, List.flatten_singleton]
    rcases hready before frame after hframes hafter with ⟨harmed, hnone⟩ | hcertain
    · obtain ⟨source, hframe⟩ := hcomplete frame (hframes ▸ by simp)
      refine (ih (frame :: after) hframes ?_).append_frame hcarry harmed hnone hframe
      rw [List.flatten_cons]
      exact List.append_ne_nil_of_right_ne_nil _ hafter
    · exact hcertain

/-- **Recognised cuts surface the same.** Both come to one read of the stretch, and behind it they
are the same frames. -/
theorem readAll_of_recognised (hcarry : r.carry = []) {frames reads : List (List UInt8)}
    (hcomplete : ∀ frame ∈ frames, ∃ source, Complete source frame)
    (hreads : reads.flatten = frames.flatten) (h : r.Recognised frames reads) :
    r.readAll reads = r.readAll frames := by
  obtain ⟨xs, ys, zs, rfl, rfl, hframe, hread⟩ := h
  have hbytes : ys.flatten = xs.flatten := by
    rwa [List.flatten_append, List.flatten_append, List.append_left_inj] at hreads
  have hxs := certainWithin_frames hcarry
    (fun frame hmem => hcomplete frame (List.mem_append_left zs hmem)) hframe
  have hys : r.CertainWithin ys := by
    intro before after hys hafter
    rcases hread before after hys hafter with ⟨gs, hs, rfl, hgs⟩ | hcertain
    · -- the read ends at the end of a frame
      rw [← hgs]
      refine hxs gs hs rfl fun hnone => hafter ?_
      rw [hys, List.flatten_append, List.flatten_append, hgs, hnone, List.append_nil] at hbytes
      exact List.append_right_eq_self.mp hbytes
    · exact hcertain
  rw [readAll_append, readAll_append, readAll_eq_decode hcarry hxs, readAll_eq_decode hcarry hys,
    hbytes]

end Receiver

namespace CompressingLineTransport

variable {t : CompressingLineTransport}

/-- **The cuts do not matter**: the calls answer the same on the reads and on each frame as a
read of its own. -/
def SurfacesSame (t : CompressingLineTransport) (frames reads : List (List UInt8)) : Prop :=
  ∀ n, t.receiveLines n reads = t.receiveLines n frames

/-- Sources and their frames, of which none is stored and none starts as a notice does. -/
def Frames (sources frames : List (List UInt8)) : Prop :=
  List.Forall₂ (fun source frame => encodeFrame source = .ok frame ∧
    frame.head? ≠ some storedMarker ∧ ¬HostLinkCompression.systemNoticePrefix <+: frame)
      sources frames

/-- Such frames are complete. -/
theorem Frames.complete {sources frames : List (List UInt8)} (h : Frames sources frames) :
    ∀ frame ∈ frames, ∃ source, Complete source frame := by
  intro frame hmem
  obtain ⟨p, hp, rfl⟩ : ∃ p ∈ sources.zip frames, p.2 = frame := by
    rw [← List.map_snd_zip h.length_eq.ge] at hmem
    exact List.mem_map.mp hmem
  obtain ⟨hencode, hstored, hnotice⟩ := List.forall₂_zip h hp
  exact ⟨p.1, (coded_of_encodeFrame hencode hstored hnotice).complete⟩

/-- A transport whose two sides are armed. -/
def exampleTransport : CompressingLineTransport :=
  { new lf [] with compression := HostLinkCompression.exampleArmed }

/-- The frame of a line. -/
def exampleFrame : List UInt8 := (encodeFrame (encode "hello world\n".toList)).toOption.getD []

/-- The frame of the toggle that ends the coding. -/
def exampleEnd : List UInt8 := (encodeFrame (encode "//COMP 0\n".toList)).toOption.getD []

/-- The frames of some lines are neither stored nor like a notice. -/
theorem isFrame_exampleFrame :
    (encodeFrame (encode "hello world\n".toList) = .ok exampleFrame ∧
      exampleFrame.head? ≠ some storedMarker ∧ ¬systemNoticePrefix <+: exampleFrame) ∧
    encodeFrame (encode "//COMP 0\n".toList) = .ok exampleEnd ∧
      exampleEnd.head? ≠ some storedMarker ∧ ¬systemNoticePrefix <+: exampleEnd := by
  rw [← List.isPrefixOf_iff_prefix, ← List.isPrefixOf_iff_prefix]
  decide +kernel

theorem complete_exampleFrame : Complete (encode "hello world\n".toList) exampleFrame ∧
    Complete (encode "//COMP 0\n".toList) exampleEnd := by
  obtain ⟨⟨hencode, hstored, hnotice⟩, hencode', hstored', hnotice'⟩ := isFrame_exampleFrame
  exact ⟨(coded_of_encodeFrame hencode hstored hnotice).complete,
    (coded_of_encodeFrame hencode' hstored' hnotice').complete⟩

theorem frames_exampleFrame : Frames [encode "hello world\n".toList] [exampleFrame] :=
  .cons isFrame_exampleFrame.1 .nil

/-- Three frames, the last of them behind the end of the coding. -/
def exampleFrames : List (List UInt8) := [exampleFrame, exampleEnd, exampleFrame]

/-- Their bytes, cut inside the first frame and inside the last. -/
def exampleReads : List (List UInt8) :=
  [exampleFrame.take 3, exampleFrame.drop 3 ++ exampleEnd ++ exampleFrame.take 2,
    exampleFrame.drop 2]

theorem frames_exampleFrames :
    Frames [encode "hello world\n".toList, encode "//COMP 0\n".toList,
      encode "hello world\n".toList] exampleFrames :=
  .cons isFrame_exampleFrame.1 (.cons isFrame_exampleFrame.2 (.cons isFrame_exampleFrame.1 .nil))

/-- The first of the cuts leaves a head, the other one text. -/
theorem recognised_exampleReads :
    exampleTransport.receiver.Recognised exampleFrames exampleReads := by
  refine ⟨exampleFrames, exampleReads, [], (List.append_nil _).symm, (List.append_nil _).symm,
    fun before frame after hsplit hafter => ?_, fun before after hsplit hafter => Or.inr ?_⟩
  · -- the frames that are not the last find the side ready
    rcases before with _ | ⟨x, _ | ⟨y, _ | ⟨z, before⟩⟩⟩
    · exact Or.inl (by decide +kernel)
    · obtain ⟨rfl, -⟩ := List.cons.inj hsplit
      exact Or.inl (by decide +kernel)
    · obtain ⟨-, hrest⟩ := List.cons.inj (List.cons.inj (List.cons.inj hsplit).2).2
      exact absurd (congrArg List.flatten hrest.symm) hafter
    · have hlen := congrArg List.length hsplit
      simp [exampleFrames] at hlen
  · rcases before with _ | ⟨x, _ | ⟨y, _ | ⟨z, before⟩⟩⟩
    · exact .nothing _
    · obtain ⟨rfl, -⟩ := List.cons.inj hsplit
      exact .head (by decide) (by decide +kernel) (by decide +kernel)
    · obtain ⟨rfl, hsplit'⟩ := List.cons.inj hsplit
      obtain ⟨rfl, -⟩ := List.cons.inj hsplit'
      have hbytes : [exampleFrame.take 3, exampleFrame.drop 3 ++ exampleEnd ++
          exampleFrame.take 2].flatten = exampleFrame ++ (exampleEnd ++ exampleFrame.take 2) := by
        decide +kernel
      have htext : exampleFrame.take 2 = [0x0B, 0xF9] := by decide +kernel
      rw [hbytes, htext]
      refine .frame rfl complete_exampleFrame.1 (.frame (by decide +kernel)
        complete_exampleFrame.2
          (.text (by decide +kernel) (.text (by decide +kernel) (.nothing _))))
    · have hlen := congrArg List.length hsplit
      rw [exampleReads, List.length_append] at hlen
      obtain rfl : after = [] := List.eq_nil_of_length_eq_zero (by simp at hlen; omega)
      exact absurd rfl hafter

end CompressingLineTransport

end Convers
