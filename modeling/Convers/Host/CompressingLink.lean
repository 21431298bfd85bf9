import Convers.Host.ReadTurns
import Convers.Lib.Run

/-!
# Two transports back to back

The negotiation of two line transports, each of which reads what the other one writes. A
side submits lines, offers and replies to its chain of sends, the chain runs them one after
another, and a read takes any number of the writes in flight.

A write is *framed* when the transmit side is armed as it is made, and a byte is *taken
armed* when the receive side is as it is decoded. `Convers.CompressingLink.LockStep` says
that the two are the same of every byte, and that no toggle is written by an armed side. A
second offer breaks it, and so does the offer of a side that has replied already: the
toggle is written as it is where the other side expects a frame
(`Convers.CompressingLink.not_lockStep_exampleOffer`).

The invariant has a part for each side, the phase of its negotiation
(`Convers.CompressingLink.Phase`), and one for each direction, what is in flight between a
transmit side and the receive side it arms (`Convers.CompressingLink.Stage`). With it every
run whose steps are careful stays in lock-step
(`Convers.CompressingLink.lockStep_of_careful`).
-/

namespace Convers

open Compression HostLinkCompression CompressingLineTransport

/-- A write to the wire: whether it is a frame, and its bytes. -/
structure Write where
  framed : Bool
  bytes : List UInt8
  deriving DecidableEq

/-- The bytes of a write, each with whether it is of a frame. -/
def Write.tagged (w : Write) : List (Bool × UInt8) := w.bytes.map fun b => (w.framed, b)

/-- What waits in the chain of sends. -/
inductive Job where
  /-- Of `SendLineAsync`. -/
  | line (line : Text)
  /-- Of `OfferCompressionAsync`. -/
  | offer
  /-- A reciprocal reply, of `ReceiveLineAsync`. -/
  | reply (bytes : List UInt8)
  deriving DecidableEq

namespace Job

/-- The job is a reply. -/
def isReply : Job → Bool
  | reply _ => true
  | _ => false

/-- The job writes a toggle. -/
def isToggle : Job → Bool
  | line _ => false
  | _ => true

end Job

/-- One end of a link: its transport, the chain of sends, and the writes in flight to the
other end; and for the record all bytes written, and all bytes taken. -/
structure End where
  transport : CompressingLineTransport
  /-- `_sendTail`. -/
  sendTail : List Job
  wire : List Write
  written : List (Bool × UInt8)
  taken : List (Bool × UInt8)
  deriving DecidableEq

namespace End

/-- The end of a new transport. -/
def new (terminator : Char) (bufferedLines : List Text) : End :=
  { transport := CompressingLineTransport.new terminator bufferedLines, sendTail := [],
    wire := [], written := [], taken := [] }

/-- `EnqueueSendAsync`. -/
def enqueueSend (e : End) (job : Job) : End := { e with sendTail := e.sendTail ++ [job] }

/-- The writes leave for the other end. -/
def emit (e : End) (writes : List Write) : End :=
  { e with wire := e.wire ++ writes, written := e.written ++ writes.flatMap Write.tagged }

/-- A job of the chain runs. -/
def run (e : End) : Job → End
  | .line line =>
    match e.transport.compression.encodeOutbound (frameLine e.transport.terminator line) with
    | .ok frames => e.emit (frames.map fun frame => ⟨e.transport.compression.txActive, frame⟩)
    | .error _ => e
  | .offer =>
    let (bytes, compression) := e.transport.compression.buildOffer
    { e with transport := { e.transport with compression := compression } }.emit [⟨false, bytes⟩]
  | .reply bytes =>
    let e := e.emit [⟨false, bytes⟩]
    { e with transport := { e.transport with
        compression := e.transport.compression.engageTransmitAfterReciprocal } }

/-- The first job of the chain runs. -/
def runNext (e : End) : End :=
  match e.sendTail with
  | [] => e
  | job :: rest => { e with sendTail := rest }.run job

/-- A reply is waited for. -/
def awaitsReply (e : End) : Bool := e.sendTail.any Job.isReply

/-- `ReceiveLineAsync` submits the next reply, once the one before it is written. -/
def answer (e : End) : End :=
  if e.awaitsReply then e
  else
    match e.transport.pendingReplies with
    | [] => e
    | reply :: replies =>
      { e with transport := { e.transport with pendingReplies := replies } }.enqueueSend
        (.reply reply)

/-- `ReceiveLineAsync` has written the replies it owes. -/
def replied (e : End) : Bool := !e.awaitsReply && e.transport.pendingReplies.length = 0

/-- `ReceiveLineAsync` surfaces a line. -/
def surface (e : End) : End :=
  if e.replied then
    { e with transport := { e.transport with pending := e.transport.pending.tail } }
  else e

/-- `ReceiveLineAsync` waits for a read. -/
def reads (e : End) : Bool := e.replied && e.transport.pending.length = 0

/-- `ReceiveLineAsync` reads some writes at once. -/
def read (e : End) (writes : List Write) : End :=
  let raw := writes.flatMap Write.bytes
  { e with
    transport := e.transport.receiveRead raw
    taken := e.taken ++ CompressingLineTransport.taken (e.transport.piecesOf raw) }

end End

/-- The two ends of a link. -/
inductive Side where
  | left
  | right
  deriving DecidableEq

/-- The other one. -/
def Side.other : Side → Side
  | left => right
  | right => left

/-- Two transports back to back. -/
structure CompressingLink where
  left : End
  right : End
  deriving DecidableEq

namespace CompressingLink

/-- The end of a side. -/
def get (l : CompressingLink) : Side → End
  | .left => l.left
  | .right => l.right

/-- The link with another end of a side. -/
def set (l : CompressingLink) (side : Side) (e : End) : CompressingLink :=
  match side with
  | .left => { l with left := e }
  | .right => { l with right := e }

@[simp] theorem get_set (l : CompressingLink) (side : Side) (e : End) :
    (l.set side e).get side = e := by
  cases side <;> rfl

@[simp] theorem get_set_other (l : CompressingLink) (side : Side) (e : End) :
    (l.set side e).get side.other = l.get side.other := by
  cases side <;> rfl

@[simp] theorem get_other_set (l : CompressingLink) (side : Side) (e : End) :
    (l.set side.other e).get side = l.get side := by
  cases side <;> rfl

@[simp] theorem other_other (side : Side) : side.other.other = side := by
  cases side <;> rfl

/-- What may happen on a link. -/
inductive Label where
  /-- `SendLineAsync` is called. -/
  | sendLine (side : Side) (line : Text)
  /-- `OfferCompressionAsync` is called. -/
  | offer (side : Side)
  /-- The chain of sends runs its first job. -/
  | write (side : Side)
  /-- `ReceiveLineAsync` submits a reply it owes. -/
  | answer (side : Side)
  /-- `ReceiveLineAsync` surfaces a line. -/
  | surface (side : Side)
  /-- `ReceiveLineAsync` reads the first write of the other end, and `more` that follow. -/
  | deliver (side : Side) (more : ℕ)
  deriving DecidableEq

/-- A step of the link; what cannot happen changes nothing. -/
def step (l : CompressingLink) : Label → CompressingLink
  | .sendLine side line => l.set side ((l.get side).enqueueSend (.line line))
  | .offer side => l.set side ((l.get side).enqueueSend .offer)
  | .write side => l.set side (l.get side).runNext
  | .answer side => l.set side (l.get side).answer
  | .surface side => l.set side (l.get side).surface
  | .deliver side more =>
    let sender := l.get side.other
    if (l.get side).reads && sender.wire.length ≠ 0 then
      (l.set side ((l.get side).read (sender.wire.take (more + 1)))).set side.other
        { sender with wire := sender.wire.drop (more + 1) }
    else l

/-- Two new transports. -/
def start (left right : Char × List Text) : CompressingLink :=
  ⟨End.new left.1 left.2, End.new right.1 right.2⟩

/-! ### Lock-step -/

/-- **What has been taken is what was written**, each byte armed iff it is of a frame. -/
def InStep (l : CompressingLink) : Prop :=
  ∀ side, (l.get side.other).taken <+: (l.get side).written

/-- The step writes a toggle on a direction that is armed. -/
def TogglesArmed (l : CompressingLink) : Label → Prop
  | .write side => ∃ job ∈ (l.get side).sendTail.head?, job.isToggle = true ∧
      (l.get side).transport.compression.txActive = true
  | _ => False

/-- **Lock-step**: in every state of the run what has been taken is what was written, and
no step of it writes a toggle on a direction that is armed. -/
def LockStep (l : CompressingLink) (labels : List Label) : Prop :=
  (∀ p ∈ Run.trace step l labels, InStep p.1 ∧ ¬TogglesArmed p.1 p.2) ∧
    InStep (Run.final step l labels)

/-! ### Careful steps -/

/-- No line of a text is a toggle. -/
def QuietLine (terminator : Char) (line : Text) : Prop :=
  ∀ part ∈ (splitLines (frameLine terminator line)).1, CompressionNegotiation.tryParse part = none

instance (terminator : Char) (line : Text) : Decidable (QuietLine terminator line) :=
  inferInstanceAs (Decidable (∀ part ∈ _, _ = none))

/-- The lines that a read of so many writes completes. -/
def heard (l : CompressingLink) (side : Side) (more : ℕ) : List Text :=
  completed ((l.get side).transport.piecesOf
    (((l.get side.other).wire.take (more + 1)).flatMap Write.bytes))

/-- **The step is careful**. A line that spells a toggle is sent by an armed side only. An
offer is made by a side that has not offered or replied, and has no offer waiting. No line
that is read switches the compression off, and none arms a side whose own offer is waiting. -/
def Careful (l : CompressingLink) : Label → Prop
  | .sendLine side line => (l.get side).transport.compression.txActive = true ∨
      QuietLine (l.get side).transport.terminator line
  | .offer side => (l.get side).transport.compression.offered = false ∧
      .offer ∉ (l.get side).sendTail
  | .deliver side more => (l.get side).reads = true → ∀ line ∈ l.heard side more,
      CompressionNegotiation.tryParse line ≠ some false ∧
        (.offer ∈ (l.get side).sendTail → CompressionNegotiation.tryParse line ≠ some true)
  | _ => True

instance (l : CompressingLink) (label : Label) : Decidable (Careful l label) := by
  cases label
  · exact inferInstanceAs (Decidable (_ ∨ _))
  · exact inferInstanceAs (Decidable (_ ∧ _))
  · exact inferInstanceAs (Decidable True)
  · exact inferInstanceAs (Decidable True)
  · exact inferInstanceAs (Decidable True)
  · exact inferInstanceAs (Decidable (_ = true → ∀ line ∈ _, _))

/-! ### What is in flight -/

/-- The splitter is between two lines. -/
def Between (a : LineAssembler) : Prop := a.Sound ∧ a.current = []

/-- A write of a side that is not armed: whole lines, of which none is a toggle. -/
structure RawLine (w : Write) : Prop where
  framed : w.framed = false
  whole : ∃ bytes b, w.bytes = bytes ++ [b] ∧ isTerminatorByte b = true
  quiet : ∀ part ∈ (splitLines w.bytes).1, CompressionNegotiation.tryParse part = none

/-- A write of an armed side. -/
structure FrameWrite (w : Write) : Prop where
  framed : w.framed = true
  isFramed : Framed w.bytes

/-- The write of a toggle. -/
def toggleWrite : Write := ⟨false, CompressionNegotiation.toggle⟩

/-- **What is in flight** from a transmit side to a receive side and its splitter: plain
lines to begin with, then a toggle and frames behind it, and frames once it is read. -/
inductive Stage : Bool → Bool → LineAssembler → List Write → Prop
  | plain {a : LineAssembler} {wire : List Write} (hbetween : Between a)
      (hwire : ∀ w ∈ wire, RawLine w) : Stage false false a wire
  | opening {a : LineAssembler} {raws frames : List Write} (hbetween : Between a)
      (hraws : ∀ w ∈ raws, RawLine w) (hframes : ∀ w ∈ frames, FrameWrite w) :
      Stage true false a (raws ++ toggleWrite :: frames)
  | opened {a : LineAssembler} {frames : List Write} (hframes : ∀ w ∈ frames, FrameWrite w) :
      Stage true true a frames

variable {t u : CompressingLineTransport} {a : LineAssembler} {w : Write}

/-- Between two lines, a raw write completes no toggle, and leaves the splitter so. -/
theorem RawLine.feed (h : RawLine w) (ha : Between a) :
    NoToggle a w.bytes ∧ Between (a.feed w.bytes).1 := by
  obtain ⟨hlines, -, hsound⟩ := LineAssembler.feed_eq_splitLinesLoop w.bytes a [] ha.1 ha.2
  refine ⟨fun line hline => ?_, hsound, ?_⟩
  · rcases line with _ | ⟨c, line⟩
    · decide
    · refine h.quiet _ ?_
      rw [splitLines, ← hlines, LineAssembler.dropEmpty, List.mem_filter]
      exact ⟨hline, by simp⟩
  · -- the last byte ends a line
    obtain ⟨bytes, b, hbytes, hb⟩ := h.whole
    obtain ⟨-, -, hbefore⟩ := LineAssembler.feed_eq_splitLinesLoop bytes a [] ha.1 ha.2
    rw [hbytes, LineAssembler.feed_append]
    dsimp only
    rw [LineAssembler.feed]
    split
    · rename_i hskip
      simp only [Bool.and_eq_true] at hskip
      exact hbefore hskip.1
    · split
      · rfl
      · rename_i hcr
        have hlf : b = 0x0A := by simpa [isTerminatorByte, hcr] using hb
        rw [if_pos hlf]
        rfl

/-- **Raw writes** are taken as they are. The lines that are written before the link is armed come
out by it. -/
theorem takes_raws {raws : List Write} (hraws : ∀ w ∈ raws, RawLine w)
    (hrx : t.compression.rxActive = false) (ha : Between t.assembler) :
    ∃ ps u, Takes t (raws.flatMap Write.bytes) ps u ∧
      CompressingLineTransport.taken ps = raws.flatMap Write.tagged ∧
        Hears t (raws.flatMap Write.bytes) u ∧ Between u.assembler := by
  induction raws generalizing t with
  | nil => exact ⟨[], t, .refl t, rfl, ⟨rfl, rfl, rfl, rfl⟩, ha⟩
  | cons w raws ih =>
    have hw := hraws w (by simp)
    obtain ⟨hno, hbetween⟩ := hw.feed ha
    obtain ⟨bytes, b, hbytes, hb⟩ := hw.whole
    have hwhole : Whole w.bytes := by
      rw [hbytes]
      exact whole_concat hb bytes
    obtain ⟨ps, u, htakes, htaken, hhears⟩ := takes_whole hwhole hrx hno
    obtain ⟨qs, v, htakes', htaken', hhears', hbetween'⟩ := ih (t := u)
      (fun x hx => hraws x (List.mem_cons_of_mem _ hx)) (by rw [hhears.compression, hrx])
      (by rwa [hhears.assembler])
    rw [List.flatMap_cons, List.flatMap_cons]
    refine ⟨_, v, htakes.trans htakes', ?_, hhears.trans hhears', hbetween'⟩
    rw [taken_append, htaken, htaken', Write.tagged, hw.framed]

/-- Frames that are read armed. -/
theorem receiveRead_frames {frames : List Write} (hframes : ∀ w ∈ frames, FrameWrite w)
    (hrx : t.compression.rxActive = true) (hoffered : t.compression.offered = true) {turns : ℕ}
    (hturns : (frames.flatMap Write.bytes).length ≤ turns)
    (hno : NoDisable (completed (pieces turns t (frames.flatMap Write.bytes)))) :
    (decodeBuffer turns t (frames.flatMap Write.bytes)).compression = t.compression ∧
      (decodeBuffer turns t (frames.flatMap Write.bytes)).pendingReplies = t.pendingReplies ∧
        (decodeBuffer turns t (frames.flatMap Write.bytes)).carry = t.carry ∧
          CompressingLineTransport.taken (pieces turns t (frames.flatMap Write.bytes)) =
            frames.flatMap Write.tagged := by
  rw [List.flatMap_def] at hturns hno ⊢
  have hframed : ∀ f ∈ frames.map Write.bytes, Framed f := by
    intro f hf
    obtain ⟨w, hw, rfl⟩ := List.mem_map.mp hf
    exact (hframes w hw).isFramed
  have htagged : frames.flatMap Write.tagged =
      (frames.map Write.bytes).flatten.map fun b => (true, b) := by
    rw [List.map_flatten, List.map_map, List.flatMap_def]
    refine congrArg List.flatten (List.map_congr_left fun w hw => ?_)
    rw [Write.tagged, (hframes w hw).framed]
    rfl
  rw [htagged]
  exact decodeBuffer_framed hframed hrx hoffered hturns hno

/-- What a read does to a stage: nothing, or it arms the receive side, and a reply is owed
when the side has not offered. -/
def Hearing (t u : CompressingLineTransport) : Prop :=
  u.compression = t.compression ∧ u.pendingReplies = t.pendingReplies ∨
    t.compression.rxActive = false ∧
      u.compression = { t.compression with rxActive := true, offered := true } ∧
        u.pendingReplies = t.pendingReplies ++
          if t.compression.offered then [] else [CompressionNegotiation.toggle]

/-- **A read of what is in flight**: every byte is taken armed iff it is of a frame, and what stays
in flight fits the receive side. The order on the wire is what keeps the two ends in step, not the
time of the read. -/
theorem Stage.read {tx : Bool} {wire : List Write}
    (hstage : Stage tx t.compression.rxActive t.assembler wire) (hcarry : t.carry = [])
    (hoffered : t.compression.rxActive = true → t.compression.offered = true) (n : ℕ)
    (hno : NoDisable (completed (t.piecesOf ((wire.take n).flatMap Write.bytes)))) :
    let raw := (wire.take n).flatMap Write.bytes
    let u := t.receiveRead raw
    u.carry = [] ∧
      CompressingLineTransport.taken (t.piecesOf raw) = (wire.take n).flatMap Write.tagged ∧
        Stage tx u.compression.rxActive u.assembler (wire.drop n) ∧ Hearing t u ∧
          (u.compression = t.compression ∨
            CompressionNegotiation.enable ∈ completed (t.piecesOf raw)) := by
  intro raw u
  obtain ⟨hstate, hpieces⟩ := receiveRead_of_carry hcarry raw
  generalize hrx : t.compression.rxActive = rx at hstage hoffered
  generalize ha : t.assembler = a at hstage
  cases hstage with
  | plain hbetween hwire =>
    subst ha
    have hraws : ∀ w ∈ wire.take n, RawLine w := fun w hw => hwire w (List.mem_of_mem_take hw)
    obtain ⟨ps, v, htakes, htaken, hhears, hbetween'⟩ := takes_raws hraws hrx hbetween
    obtain ⟨hv, hps⟩ := htakes.receiveRead hcarry
    have hu : u = v := hv
    have hraw : t.piecesOf raw = ps := hps
    rw [hu, hraw, hhears.carry, hhears.compression, hrx]
    refine ⟨hcarry, htaken, .plain hbetween' fun w hw => hwire w (List.mem_of_mem_drop hw), ?_,
      Or.inl rfl⟩
    exact Or.inl ⟨hhears.compression, hhears.pendingReplies⟩
  | @opening _ raws frames hbetween hraws hframes =>
    subst ha
    by_cases hn : n ≤ raws.length
    · -- the toggle stays in flight
      have htake : (raws ++ toggleWrite :: frames).take n = raws.take n :=
        List.take_append_of_le_length hn
      have hdrop : (raws ++ toggleWrite :: frames).drop n =
          raws.drop n ++ toggleWrite :: frames := List.drop_append_of_le_length hn
      have hsome : ∀ w ∈ raws.take n, RawLine w := fun w hw => hraws w (List.mem_of_mem_take hw)
      obtain ⟨ps, v, htakes, htaken, hhears, hbetween'⟩ := takes_raws hsome hrx hbetween
      obtain ⟨hv, hps⟩ := htakes.receiveRead hcarry
      have hu : u = v := by rw [← hv, ← htake]
      have hraw : t.piecesOf raw = ps := by rw [← hps, ← htake]
      rw [hu, hraw, htake, hdrop, hhears.carry, hhears.compression, hrx]
      refine ⟨hcarry, htaken,
        .opening hbetween' (fun w hw => hraws w (List.mem_of_mem_drop hw)) hframes, ?_, Or.inl rfl⟩
      exact Or.inl ⟨hhears.compression, hhears.pendingReplies⟩
    · obtain ⟨k, rfl⟩ : ∃ k, n = raws.length + (k + 1) := ⟨n - raws.length - 1, by omega⟩
      have htake : (raws ++ toggleWrite :: frames).take (raws.length + (k + 1)) =
          raws ++ toggleWrite :: frames.take k := by
        rw [List.take_length_add_append]
        rfl
      have hdrop : (raws ++ toggleWrite :: frames).drop (raws.length + (k + 1)) =
          frames.drop k := by
        rw [List.drop_length_add_append]
        rfl
      have hframes' : ∀ w ∈ frames.take k, FrameWrite w := fun w hw =>
        hframes w (List.mem_of_mem_take hw)
      obtain ⟨ps, v, htakes, htaken, hhears, hbetween'⟩ := takes_raws hraws hrx hbetween
      obtain ⟨qs, htakes', htaken', henable⟩ := takes_toggle (t := v)
        (by rw [hhears.compression, hrx]) hbetween'.2
      have hbytes : raw = raws.flatMap Write.bytes ++ CompressionNegotiation.toggle ++
          (frames.take k).flatMap Write.bytes := by
        show List.flatMap Write.bytes _ = _
        rw [htake, List.flatMap_append, List.flatMap_cons, List.append_assoc]
        rfl
      obtain ⟨turns, hturns, hstate', hpieces'⟩ := htakes.trans htakes'
        ((frames.take k).flatMap Write.bytes) raw.length (by rw [hbytes])
      rw [← hbytes] at hstate' hpieces'
      have hno' : NoDisable (completed (pieces turns v.hearToggle
          ((frames.take k).flatMap Write.bytes))) := by
        intro line hline
        refine hno line ?_
        show line ∈ completed (t.piecesOf raw)
        rw [hpieces, hpieces', completed_append]
        exact List.mem_append_right _ hline
      obtain ⟨h1, h2, h3, h4⟩ := receiveRead_frames (t := v.hearToggle) hframes' rfl rfl hturns hno'
      have hu : u = decodeBuffer turns v.hearToggle ((frames.take k).flatMap Write.bytes) :=
        hstate.trans hstate'
      have harmed : u.compression = { t.compression with rxActive := true, offered := true } := by
        rw [hu, h1, hearToggle, hhears.compression]
      refine ⟨?_, ?_, ?_, Or.inr ⟨hrx, harmed, ?_⟩, Or.inr ?_⟩
      · rw [hu, h3]
        exact hhears.carry.trans hcarry
      · rw [hpieces, hpieces', taken_append, taken_append, htaken, htaken', h4, htake,
          List.flatMap_append, List.flatMap_cons, List.append_assoc]
        rfl
      · rw [harmed, hdrop]
        exact .opened fun w hw => hframes w (List.mem_of_mem_drop hw)
      · rw [hu, h2, hearToggle, hhears.pendingReplies, hhears.compression]
      · rw [hpieces, hpieces', completed_append, completed_append]
        exact List.mem_append_left _ (List.mem_append_right _ henable)
  | opened hframes =>
    have hframes' : ∀ w ∈ wire.take n, FrameWrite w := fun w hw =>
      hframes w (List.mem_of_mem_take hw)
    have hno' : NoDisable (completed (pieces raw.length t raw)) := by
      rw [← hpieces]
      exact hno
    obtain ⟨h1, h2, h3, h4⟩ :=
      receiveRead_frames hframes' hrx (hoffered rfl) (le_refl raw.length) hno'
    have hu : u = decodeBuffer raw.length t raw := hstate
    have hsame : u.compression = t.compression := hu ▸ h1
    refine ⟨?_, ?_, ?_, Or.inl ⟨hsame, hu ▸ h2⟩, Or.inl hsame⟩
    · exact (congrArg carry hu).trans (h3.trans hcarry)
    · rw [hpieces]
      exact h4
    · rw [hsame, hrx]
      exact .opened fun w hw => hframes w (List.mem_of_mem_drop hw)

/-! ### The phases of a side -/

/-- **The phase of a negotiation**: the stage of the side, the toggles that wait in its
chain, and the replies that it has not submitted. -/
inductive Phase : HostLinkCompression → List Job → List (List UInt8) → Prop
  | idle : Phase ⟨false, false, false⟩ [] []
  /-- An offer waits. -/
  | offering : Phase ⟨false, false, false⟩ [.offer] []
  /-- The offer is written, or the reply is. -/
  | armed (rx : Bool) : Phase ⟨true, rx, true⟩ [] []
  /-- The other end has offered. -/
  | owing : Phase ⟨false, true, true⟩ [] [CompressionNegotiation.toggle]
  /-- The reply waits. -/
  | answering : Phase ⟨false, true, true⟩ [.reply CompressionNegotiation.toggle] []

/-- The invariant of an end. -/
structure Sound (e : End) : Prop where
  terminator : isTerminator e.transport.terminator = true
  lines : ∀ line, .line line ∈ e.sendTail → e.transport.compression.txActive = true ∨
    QuietLine e.transport.terminator line
  phase : Phase e.transport.compression (e.sendTail.filter Job.isToggle) e.transport.pendingReplies

/-- The invariant of a direction, from the end that writes to the one that reads. -/
structure Direction (s r : End) : Prop where
  carry : r.transport.carry = []
  ledger : s.written = r.taken ++ s.wire.flatMap Write.tagged
  stage : Stage s.transport.compression.txActive r.transport.compression.rxActive
    r.transport.assembler s.wire

/-- **The invariant of a link.** -/
def Orderly (l : CompressingLink) : Prop :=
  ∀ side, Sound (l.get side) ∧ Direction (l.get side) (l.get side.other)

/-- A link is orderly once one of its ends is replaced by one that fits the other end. -/
theorem Orderly.set {l : CompressingLink} {side : Side} {e : End} (h : Orderly l)
    (hsound : Sound e) (hto : Direction e (l.get side.other))
    (hfrom : Direction (l.get side.other) e) : Orderly (l.set side e) := by
  intro which
  rcases eq_or_ne which side with rfl | hne
  · rw [get_set, get_set_other]
    exact ⟨hsound, hto⟩
  · obtain rfl : which = side.other := by
      cases which <;> cases side <;> first | rfl | exact absurd rfl hne
    rw [get_set_other, other_other, get_set]
    exact ⟨(h side.other).1, hfrom⟩

section Ends

variable {e s r : End}

/-- A line that is submitted. -/
theorem Sound.enqueueLine (h : Sound e) {line : Text}
    (hline : e.transport.compression.txActive = true ∨ QuietLine e.transport.terminator line) :
    Sound (e.enqueueSend (.line line)) := by
  refine ⟨h.terminator, fun other hother => ?_, ?_⟩
  · rcases List.mem_append.mp hother with hother | hother
    · exact h.lines other hother
    · obtain rfl : other = line := by simpa using hother
      exact hline
  · have hphase := h.phase
    rw [End.enqueueSend, List.filter_append]
    simpa [Job.isToggle] using hphase

/-- An offer that is submitted. -/
theorem Sound.enqueueOffer (h : Sound e) (hoffered : e.transport.compression.offered = false)
    (hnone : Job.offer ∉ e.sendTail) : Sound (e.enqueueSend .offer) := by
  refine ⟨h.terminator, fun line hline => h.lines line (by simpa [End.enqueueSend] using hline), ?_⟩
  have hphase := h.phase
  show Phase e.transport.compression ((e.sendTail ++ [Job.offer]).filter Job.isToggle)
    e.transport.pendingReplies
  rw [List.filter_append]
  generalize hc : e.transport.compression = c at hphase hoffered ⊢
  generalize htoggles : e.sendTail.filter Job.isToggle = toggles at hphase ⊢
  generalize e.transport.pendingReplies = replies at hphase ⊢
  cases hphase with
  | idle => exact .offering
  | offering =>
    have hmem : Job.offer ∈ e.sendTail.filter Job.isToggle := by simp [htoggles]
    exact absurd (List.mem_of_mem_filter hmem) hnone
  | armed => cases hoffered
  | owing => cases hoffered
  | answering => cases hoffered

/-- Only the stage, the splitter, the bytes carried over and those taken matter to what is
read. -/
theorem Direction.congr_reader {r' : End} (h : Direction s r)
    (hreceiver : r'.transport.receiver = r.transport.receiver) (htaken : r'.taken = r.taken) :
    Direction s r' := by
  refine ⟨(congrArg Receiver.carry hreceiver).trans h.carry, htaken ▸ h.ledger, ?_⟩
  have harmed : r'.transport.compression.rxActive = r.transport.compression.rxActive :=
    congrArg Receiver.armed hreceiver
  have hassembler : r'.transport.assembler = r.transport.assembler :=
    congrArg Receiver.assembler hreceiver
  rw [harmed, hassembler]
  exact h.stage

/-- Writes that leave, with the stage that they leave behind. -/
theorem Direction.emit (h : Direction s r) {s' : End} {writes : List Write}
    (hwire : s'.wire = s.wire ++ writes)
    (hwritten : s'.written = s.written ++ writes.flatMap Write.tagged)
    (hstage : Stage s'.transport.compression.txActive r.transport.compression.rxActive
      r.transport.assembler (s.wire ++ writes)) : Direction s' r := by
  refine ⟨h.carry, ?_, hwire ▸ hstage⟩
  rw [hwritten, hwire, h.ledger, List.flatMap_append, List.append_assoc]

/-- A line ends with a terminator. -/
theorem frameLine_eq_concat {terminator : Char} (hterm : isTerminator terminator = true)
    (line : Text) : ∃ bytes b, frameLine terminator line = bytes ++ [b] ∧
      isTerminatorByte b = true := by
  obtain ⟨ts, hts, hne, hall⟩ := terminate_eq hterm line
  rcases List.eq_nil_or_concat ts with rfl | ⟨ts', c, rfl⟩
  · exact absurd rfl hne
  · obtain ⟨b, hb, hbt⟩ := encodeChar_of_isTerminator (hall c (by simp))
    refine ⟨encode (lineBody line ++ ts'), b, ?_, hbt⟩
    rw [frameLine, hts, List.concat_eq_append, ← List.append_assoc, encode_append, encode_cons, hb]
    rfl

/-- What is on the right of a relation between two lists is related to something on its left. -/
theorem exists_of_mem_forall₂ {α β : Type} {R : α → β → Prop} {as : List α} {bs : List β}
    (h : List.Forall₂ R as bs) {b : β} (hb : b ∈ bs) : ∃ a ∈ as, R a b := by
  induction h with
  | nil => cases hb
  | cons hab _ ih =>
    rcases List.mem_cons.mp hb with rfl | hb
    · exact ⟨_, by simp, hab⟩
    · obtain ⟨a, ha, hR⟩ := ih hb
      exact ⟨a, List.mem_cons_of_mem _ ha, hR⟩

/-- **The writes of a line**: itself from a side that is not armed, else its frames. A quiet line
spells no toggle, and so is not taken for one. -/
theorem exists_writes (h : Sound e) {line : Text}
    (hline : e.transport.compression.txActive = true ∨ QuietLine e.transport.terminator line) :
    ∃ frames, e.transport.compression.encodeOutbound (frameLine e.transport.terminator line) =
        .ok frames ∧
      if e.transport.compression.txActive then
        ∀ f ∈ frames, FrameWrite ⟨e.transport.compression.txActive, f⟩
      else ∀ f ∈ frames, RawLine ⟨e.transport.compression.txActive, f⟩ := by
  obtain ⟨bytes, b, hbytes, hb⟩ := frameLine_eq_concat h.terminator line
  rcases htx : e.transport.compression.txActive with _ | _
  · refine ⟨[frameLine e.transport.terminator line], ?_, ?_⟩
    · rw [encodeOutbound, if_pos (by simp [htx])]
    · intro f hf
      obtain rfl : f = frameLine e.transport.terminator line := by simpa using hf
      rw [htx] at hline
      exact ⟨rfl, ⟨bytes, b, hbytes, hb⟩, hline.resolve_left Bool.false_ne_true⟩
  · have hencodes : ∀ chunk ∈ chunks (frameLine e.transport.terminator line),
        ∃ frame, encodeFrame chunk = .ok frame := by
      intro chunk hchunk
      obtain ⟨hpos, hmax⟩ := length_of_mem_chunks hchunk
      obtain ⟨frame, hframe, -⟩ := encodeFrame_spec hpos hmax
      exact ⟨frame, hframe⟩
    obtain ⟨frames, hframes, hall⟩ := mapM_ok hencodes
    refine ⟨frames, ?_, ?_⟩
    · rw [encodeOutbound, if_neg (by simp [htx, hbytes]), hframes]
    · intro f hf
      obtain ⟨chunk, hchunk, hframe⟩ := exists_of_mem_forall₂ hall hf
      obtain ⟨hpos, hmax⟩ := length_of_mem_chunks hchunk
      exact ⟨rfl, chunk, hpos, hmax, hframe⟩

theorem Stage.append_raws {rx : Bool} {wire writes : List Write} (h : Stage false rx a wire)
    (hwrites : ∀ w ∈ writes, RawLine w) : Stage false rx a (wire ++ writes) := by
  cases h with
  | plain hbetween hwire =>
    refine .plain hbetween fun w hw => ?_
    rcases List.mem_append.mp hw with hw | hw
    · exact hwire w hw
    · exact hwrites w hw

theorem Stage.append_frames {rx : Bool} {wire writes : List Write} (h : Stage true rx a wire)
    (hwrites : ∀ w ∈ writes, FrameWrite w) : Stage true rx a (wire ++ writes) := by
  have happend : ∀ frames : List Write, (∀ w ∈ frames, FrameWrite w) →
      ∀ w ∈ frames ++ writes, FrameWrite w := by
    intro frames hframes w hw
    rcases List.mem_append.mp hw with hw | hw
    · exact hframes w hw
    · exact hwrites w hw
  cases h with
  | opening hbetween hraws hframes =>
    rw [List.append_assoc, List.cons_append]
    exact .opening hbetween hraws (happend _ hframes)
  | opened hframes => exact .opened (happend _ hframes)

/-- **A toggle opens a direction** that is plain. It is the last write that is raw, and everything
behind it is framed. -/
theorem Stage.append_toggle {rx : Bool} {wire : List Write} (h : Stage false rx a wire) :
    Stage true rx a (wire ++ [toggleWrite]) := by
  cases h with
  | plain hbetween hwire => exact .opening hbetween hwire (by simp)

theorem Phase.offer {c : HostLinkCompression} {toggles : List Job} {replies : List (List UInt8)}
    (h : Phase c (.offer :: toggles) replies) :
    c = ⟨false, false, false⟩ ∧ toggles = [] ∧ replies = [] := by
  cases h
  exact ⟨rfl, rfl, rfl⟩

theorem Phase.reply {c : HostLinkCompression} {toggles : List Job} {replies : List (List UInt8)}
    {bytes : List UInt8} (h : Phase c (.reply bytes :: toggles) replies) :
    c = ⟨false, true, true⟩ ∧ bytes = CompressionNegotiation.toggle ∧ toggles = [] ∧
      replies = [] := by
  cases h
  exact ⟨rfl, rfl, rfl, rfl⟩

/-- A side whose toggle waits is not armed. -/
theorem Phase.not_armed {c : HostLinkCompression} {job : Job} {toggles : List Job}
    {replies : List (List UInt8)} (h : Phase c (job :: toggles) replies) : c.txActive = false := by
  cases h <;> rfl

/-- A side that has armed its receive side has offered. -/
theorem Phase.offered {c : HostLinkCompression} {toggles : List Job} {replies : List (List UInt8)}
    (h : Phase c toggles replies) (hrx : c.rxActive = true) : c.offered = true := by
  cases h with
  | idle => cases hrx
  | offering => cases hrx
  | armed => rfl
  | owing => rfl
  | answering => rfl

/-- **The chain runs its first job.** What it writes goes behind what is in flight, and keeps to the
stage of the direction. -/
theorem runNext_spec (h : Sound e) (hto : Direction e r) :
    Sound e.runNext ∧ Direction e.runNext r ∧
      e.runNext.transport.receiver = e.transport.receiver ∧ e.runNext.taken = e.taken := by
  rw [End.runNext]
  rcases htail : e.sendTail with _ | ⟨job, rest⟩
  · exact ⟨h, hto, rfl, rfl⟩
  have hphase := h.phase
  -- the lines that are left in the queue may still be written
  have hlines : ∀ line, .line line ∈ rest → e.transport.compression.txActive = true ∨
      QuietLine e.transport.terminator line := fun line hline =>
    h.lines line (htail ▸ List.mem_cons_of_mem _ hline)
  rw [htail] at hphase
  dsimp only
  cases job with
  | line line =>
    obtain ⟨frames, hframes, hwrites⟩ := exists_writes h (h.lines line (by simp [htail]))
    have hrun : ({ e with sendTail := rest } : End).run (.line line) =
        ({ e with sendTail := rest } : End).emit
          (frames.map fun frame => ⟨e.transport.compression.txActive, frame⟩) := by
      rw [End.run, hframes]
    rw [hrun]
    refine ⟨⟨h.terminator, hlines, hphase⟩, hto.emit rfl rfl ?_, rfl, rfl⟩
    have hstage := hto.stage
    show Stage e.transport.compression.txActive _ _ _
    -- the stage of the direction says whether raw lines or frames come next
    rcases htx : e.transport.compression.txActive with _ | _
    · rw [htx] at hstage hwrites
      refine hstage.append_raws fun w hw => ?_
      obtain ⟨f, hf, rfl⟩ := List.mem_map.mp hw
      exact hwrites f hf
    · rw [htx] at hstage hwrites
      refine hstage.append_frames fun w hw => ?_
      obtain ⟨f, hf, rfl⟩ := List.mem_map.mp hw
      exact hwrites f hf
  | offer =>
    have hoffer : Phase e.transport.compression (.offer :: rest.filter Job.isToggle)
        e.transport.pendingReplies := hphase
    -- an offer is made once, before anything else is armed
    obtain ⟨hc, hnone, hreplies⟩ := hoffer.offer
    have hstage := hto.stage
    rw [hc] at hstage
    refine ⟨⟨h.terminator, fun _ _ => Or.inl rfl, ?_⟩, hto.emit rfl rfl hstage.append_toggle,
      rfl, rfl⟩
    show Phase { e.transport.compression with offered := true, txActive := true }
      (rest.filter Job.isToggle) e.transport.pendingReplies
    rw [hnone, hreplies]
    exact .armed e.transport.compression.rxActive
  | reply bytes =>
    have hreply : Phase e.transport.compression (.reply bytes :: rest.filter Job.isToggle)
        e.transport.pendingReplies := hphase
    obtain ⟨hc, rfl, hnone, hreplies⟩ := hreply.reply
    have hstage := hto.stage
    rw [hc] at hstage
    refine ⟨⟨h.terminator, fun _ _ => Or.inl rfl, ?_⟩, hto.emit rfl rfl hstage.append_toggle,
      rfl, rfl⟩
    show Phase { e.transport.compression with txActive := true }
      (rest.filter Job.isToggle) e.transport.pendingReplies
    rw [hnone, hreplies, hc]
    exact .armed true

/-- A reply is submitted. -/
theorem answer_spec (h : Sound e) (hto : Direction e r) :
    Sound e.answer ∧ Direction e.answer r ∧
      e.answer.transport.receiver = e.transport.receiver ∧ e.answer.taken = e.taken := by
  rw [End.answer]
  split
  · exact ⟨h, hto, rfl, rfl⟩
  · have hphase := h.phase
    rcases hreplies : e.transport.pendingReplies with _ | ⟨reply, replies⟩
    · exact ⟨h, hto, rfl, rfl⟩
    · refine ⟨⟨h.terminator, ?_, ?_⟩, ⟨hto.carry, hto.ledger, hto.stage⟩, rfl, rfl⟩
      · intro line hline
        exact h.lines line (by simpa [End.enqueueSend] using hline)
      · show Phase e.transport.compression
          ((e.sendTail ++ [Job.reply reply]).filter Job.isToggle) replies
        rw [hreplies] at hphase
        rw [List.filter_append]
        generalize e.transport.compression = c at hphase ⊢
        generalize e.sendTail.filter Job.isToggle = toggles at hphase ⊢
        cases hphase with
        | owing => exact .answering

/-- **Some writes are read.** A toggle among them arms the side, and has it reply when it has not
offered. -/
theorem read_spec (h : Sound e) (hto : Direction e s) (hfrom : Direction s e)
    (n : ℕ)
    (hcareful : ∀ line ∈ completed (e.transport.piecesOf ((s.wire.take n).flatMap Write.bytes)),
      CompressionNegotiation.tryParse line ≠ some false ∧
        (.offer ∈ e.sendTail → CompressionNegotiation.tryParse line ≠ some true)) :
    Sound (e.read (s.wire.take n)) ∧
      Direction (e.read (s.wire.take n)) { s with wire := s.wire.drop n } ∧
        Direction { s with wire := s.wire.drop n } (e.read (s.wire.take n)) := by
  obtain ⟨hcarry, htaken, hstage, hhearing, henable⟩ := hfrom.stage.read hfrom.carry
    h.phase.offered n fun line hline => (hcareful line hline).1
  have htx : (e.transport.receiveRead ((s.wire.take n).flatMap Write.bytes)).compression.txActive =
      e.transport.compression.txActive := by
    rcases hhearing with ⟨hsame, -⟩ | ⟨-, harmed, -⟩
    · rw [hsame]
    · rw [harmed]
  refine ⟨⟨?_, ?_, ?_⟩, ⟨hto.carry, hto.ledger, ?_⟩, ⟨hcarry, ?_, hstage⟩⟩
  · rw [End.read, terminator_receiveRead]
    exact h.terminator
  · rw [End.read, htx, terminator_receiveRead]
    exact h.lines
  · show Phase (e.transport.receiveRead ((s.wire.take n).flatMap Write.bytes)).compression
      (e.sendTail.filter Job.isToggle)
      (e.transport.receiveRead ((s.wire.take n).flatMap Write.bytes)).pendingReplies
    rcases hhearing with ⟨hsame, hreplies⟩ | ⟨hrx, harmed, hreplies⟩
    · rw [hsame, hreplies]
      exact h.phase
    · rw [harmed, hreplies]
      have hphase := h.phase
      -- the receive side was not armed, so this read has the toggle
      have hheard := henable.resolve_left fun hsame => by
        rw [harmed] at hsame
        have hbad := congrArg rxActive hsame
        rw [hrx] at hbad
        cases hbad
      generalize e.transport.compression = c at hphase hrx ⊢
      generalize htoggles : e.sendTail.filter Job.isToggle = toggles at hphase ⊢
      generalize e.transport.pendingReplies = replies at hphase ⊢
      cases hphase with
      | idle => exact .owing
      | offering =>
        have hmem : Job.offer ∈ e.sendTail.filter Job.isToggle := by simp [htoggles]
        exact absurd (by decide) ((hcareful _ hheard).2 (List.mem_of_mem_filter hmem))
      | armed => exact .armed true
      | owing => cases hrx
      | answering => cases hrx
  · rw [End.read, htx]
    exact hto.stage
  · rw [End.read, htaken, List.append_assoc, ← List.flatMap_append, List.take_append_drop]
    exact hfrom.ledger

end Ends

/-! ### The runs -/

theorem orderly_start {left right : Char × List Text} (hleft : isTerminator left.1 = true)
    (hright : isTerminator right.1 = true) : Orderly (start left right) := by
  have hnew : ∀ p : Char × List Text, isTerminator p.1 = true → Sound (End.new p.1 p.2) :=
    fun p hp => ⟨hp, by simp [End.new], .idle⟩
  have hempty : ∀ p q : Char × List Text, Direction (End.new p.1 p.2) (End.new q.1 q.2) :=
    fun p q => ⟨rfl, rfl, .plain ⟨fun _ => rfl, rfl⟩ (by simp [End.new])⟩
  intro side
  cases side
  · exact ⟨hnew left hleft, hempty left right⟩
  · exact ⟨hnew right hright, hempty right left⟩

/-- **A careful step** keeps a link orderly. Each direction has a stage of its own, and a step moves
one of them at most. -/
theorem Orderly.step {l : CompressingLink} {label : Label} (h : Orderly l)
    (hcareful : Careful l label) : Orderly (l.step label) := by
  have hfrom : ∀ side, Direction (l.get side.other) (l.get side) := fun side => by
    have hother := (h side.other).2
    rwa [other_other] at hother
  cases label with
  | sendLine side line =>
    refine h.set ((h side).1.enqueueLine hcareful) ?_ ((hfrom side).congr_reader rfl rfl)
    exact ⟨(h side).2.carry, (h side).2.ledger, (h side).2.stage⟩
  | offer side =>
    refine h.set ((h side).1.enqueueOffer hcareful.1 hcareful.2) ?_
      ((hfrom side).congr_reader rfl rfl)
    exact ⟨(h side).2.carry, (h side).2.ledger, (h side).2.stage⟩
  | write side =>
    obtain ⟨hsound, hto, hreceiver, htaken⟩ := runNext_spec (h side).1 (h side).2
    exact h.set hsound hto ((hfrom side).congr_reader hreceiver htaken)
  | answer side =>
    obtain ⟨hsound, hto, hreceiver, htaken⟩ := answer_spec (h side).1 (h side).2
    exact h.set hsound hto ((hfrom side).congr_reader hreceiver htaken)
  | surface side =>
    rw [CompressingLink.step, End.surface]
    split
    · refine h.set ⟨(h side).1.terminator, (h side).1.lines, (h side).1.phase⟩ ?_
        ((hfrom side).congr_reader rfl rfl)
      exact ⟨(h side).2.carry, (h side).2.ledger, (h side).2.stage⟩
    · exact h.set (h side).1 (h side).2 (hfrom side)
  | deliver side more =>
    rw [CompressingLink.step]
    split
    · rename_i hreads
      simp only [Bool.and_eq_true] at hreads
      obtain ⟨hsound, hto, hback⟩ :=
        read_spec (h side).1 (h side).2 (hfrom side) (more + 1) (hcareful hreads.1)
      intro which
      rcases eq_or_ne which side with rfl | hne
      · rw [get_other_set, get_set, get_set]
        exact ⟨hsound, hto⟩
      · obtain rfl : which = side.other := by
          cases which <;> cases side <;> first | rfl | exact absurd rfl hne
        have hother := (h side.other).1
        rw [get_set, other_other, get_other_set, get_set]
        exact ⟨⟨hother.terminator, hother.lines, hother.phase⟩, hback⟩
    · exact h

/-- An orderly link is in step. -/
theorem Orderly.inStep {l : CompressingLink} (h : Orderly l) : InStep l := by
  intro side
  rw [(h side).2.ledger]
  exact List.prefix_append _ _

/-- No toggle of an orderly link is written by an armed side. -/
theorem Orderly.not_togglesArmed {l : CompressingLink} (h : Orderly l) (label : Label) :
    ¬TogglesArmed l label := by
  cases label with
  | write side =>
    rintro ⟨job, hjob, htoggle, htx⟩
    have hphase := (h side).1.phase
    rcases htail : (l.get side).sendTail with _ | ⟨first, rest⟩
    · rw [htail] at hjob
      cases hjob
    · obtain rfl : first = job := by simpa [htail] using hjob
      rw [htail, List.filter_cons, if_pos htoggle] at hphase
      rw [hphase.not_armed] at htx
      cases htx
  | _ => exact fun h => h

/-- **Careful runs stay in lock-step**: from two new transports, when every step is careful,
each byte is taken armed iff it is of a frame, and no toggle is written by an armed side. -/
theorem lockStep_of_careful {left right : Char × List Text} (hleft : isTerminator left.1 = true)
    (hright : isTerminator right.1 = true) {labels : List Label}
    (hcareful : ∀ p ∈ Run.trace step (start left right) labels, Careful p.1 p.2) :
    LockStep (start left right) labels := by
  obtain ⟨hall, hfinal⟩ := Run.invariant (orderly_start hleft hright) labels fun p hp horderly =>
    horderly.step (hcareful p hp)
  exact ⟨fun p hp => ⟨(hall p hp).inStep, (hall p hp).not_togglesArmed p.2⟩, hfinal.inStep⟩

/-- A peer that offers behind its greeting, and a line in each direction. -/
def exampleRun : List Label :=
  [.sendLine .right "hi".toList, .offer .right, .sendLine .right "ab".toList, .write .right,
    .write .right, .write .right, .deliver .left 2, .answer .left, .sendLine .left "cd".toList,
    .write .left, .write .left, .surface .left, .surface .left, .deliver .right 1]

/-- Each side of this run arms behind a toggle, and what is surfaced is what was sent. -/
theorem lockStep_exampleRun : LockStep (start (lf, []) (lf, [])) exampleRun := by
  refine lockStep_of_careful rfl rfl ?_
  decide +kernel

/-- The peer's greeting and its offer are read at once; the offer is answered, then the
greeting is surfaced, and the side that has replied offers in its turn. -/
def exampleOffer : List Label :=
  [.sendLine .right "hi".toList, .offer .right, .write .right, .write .right, .deliver .left 1,
    .answer .left, .write .left, .surface .left, .offer .left, .write .left, .deliver .right 0,
    .deliver .right 0]

/-- **An offer behind a reply** writes a toggle where a frame is expected. -/
theorem not_lockStep_exampleOffer : ¬LockStep (start (lf, []) (lf, [])) exampleOffer := by
  rintro ⟨-, hstep⟩
  have hdiffer : ¬(Run.final step (start (lf, []) (lf, [])) exampleOffer).right.taken <+:
      (Run.final step (start (lf, []) (lf, [])) exampleOffer).left.written := by
    rw [← List.isPrefixOf_iff_prefix]
    decide +kernel
  exact hdiffer (hstep .left)

end CompressingLink

end Convers
