import Convers.Protocol.LineAssembler

/-!
# The two splitters on a stream of reads

A link hands its bytes over in reads, cut wherever the network cut them. An
assembler carries the line so far and a pending CR from one read to the next
(`Convers.LineAssembler.feedReads`); a caller of `Convers.splitLines` carries the
remainder and puts it in front of the next read (`Convers.splitReads`). What the
lines of a stream are is said without either: a CR, an LF or a CRLF ends a line
(`Convers.streamLines`).

* `Convers.LineAssembler.feedReads_eq` – the cuts between the reads change nothing,
  not even one inside a CRLF.
* `Convers.splitReads_eq` – nor do they for the splitter with a remainder.
* `Convers.LineAssembler.lines_feedReads` – both find the lines of the stream, the
  second one without the empty ones.
-/

namespace Convers

/-- **The lines of a stream**, after the bytes `line` of one not ended: each CR with
the LF after it, and each other CR or LF, ends a line. -/
def streamLines (line : List UInt8) : List UInt8 → List Text
  | [] => []
  | 0x0D :: 0x0A :: bs => decode line :: streamLines [] bs
  | b :: bs =>
    if isTerminatorByte b then decode line :: streamLines [] bs
    else streamLines (line ++ [b]) bs

/-- A stream without the LF that completes a CRLF, if it begins with one. -/
def skipLf (bs : List UInt8) : List UInt8 := if bs.head? = some 0x0A then bs.tail else bs

theorem streamLines_cr (line bs : List UInt8) :
    streamLines line (0x0D :: bs) = decode line :: streamLines [] (skipLf bs) := by
  rcases bs with _ | ⟨b, bs⟩
  · rfl
  · rcases eq_or_ne b 0x0A with rfl | hb
    · rfl
    · rw [skipLf, if_neg (by simpa using hb), streamLines]
      · rfl
      · rintro bs' - ⟨rfl, -⟩
        exact hb rfl

theorem streamLines_lf (line bs : List UInt8) :
    streamLines line (0x0A :: bs) = decode line :: streamLines [] bs := rfl

theorem streamLines_text {b : UInt8} (hb : isTerminatorByte b = false) (line bs : List UInt8) :
    streamLines line (b :: bs) = streamLines (line ++ [b]) bs := by
  rw [streamLines, if_neg (by simp [hb])]
  rintro bs' rfl -
  exact Bool.noConfusion hb

/-! ### Reads into an assembler -/

namespace LineAssembler

/-- The lines of a sequence of reads, each fed to the assembler the last one left. -/
def feedReads : LineAssembler → List (List UInt8) → LineAssembler × List Text
  | a, [] => (a, [])
  | a, read :: reads =>
    let (a', lines) := a.feed read
    let (a'', lines') := feedReads a' reads
    (a'', lines ++ lines')

/-- **The cuts between the reads change nothing**, neither the lines nor what the assembler is left
with. So the lines of a connection are those of its bytes, and no result below has to look at the
reads. -/
theorem feedReads_eq (reads : List (List UInt8)) (a : LineAssembler) :
    a.feedReads reads = a.feed reads.flatten := by
  induction reads generalizing a with
  | nil => rfl
  | cons read reads ih =>
    rw [List.flatten_cons, feed_append, ← ih]
    rfl

/-- An assembler completes the lines of the stream. One that has just seen a CR
passes over the LF that completes it. -/
theorem lines_feed (bs : List UInt8) :
    (∀ line, (feed ⟨decode line, false⟩ bs).2 = streamLines line bs) ∧
      (feed ⟨[], true⟩ bs).2 = streamLines [] (skipLf bs) := by
  induction bs with
  | nil => exact ⟨fun line => rfl, rfl⟩
  | cons b bs ih =>
    have hplain : ∀ (line : List UInt8) (skip : Bool), (skip && b = 0x0A) = false →
        (feed ⟨decode line, skip⟩ (b :: bs)).2 = streamLines line (b :: bs) := by
      intro line skip hskip
      rw [feed, if_neg (by simp [hskip])]
      split_ifs with hcr hlf
      · subst hcr
        rw [streamLines_cr, ← ih.2]
      · subst hlf
        rw [streamLines_lf, ← ih.1]
        rfl
      · rw [streamLines_text (by simp [isTerminatorByte, hcr, hlf]), ← ih.1]
        simp
    refine ⟨fun line => hplain line false rfl, ?_⟩
    rcases eq_or_ne b 0x0A with rfl | hb
    · exact ih.1 []
    · rw [skipLf, if_neg (by simpa using hb)]
      exact hplain [] true (by simpa using hb)

end LineAssembler

/-! ### Reads into the splitter with a remainder -/

/-- The lines of a sequence of reads, the remainder of each put in front of the next. -/
def splitReads (remainder : List UInt8) : List (List UInt8) → List Text × List UInt8
  | [] => ([], remainder)
  | read :: reads =>
    let (lines, remainder') := splitLines (remainder ++ read)
    let (lines', remainder'') := splitReads remainder' reads
    (lines ++ lines', remainder'')

theorem splitLinesLoop_append_reads (as bs start : List UInt8) :
    splitLinesLoop start (as ++ bs) =
      ((splitLinesLoop start as).1 ++ (splitLinesLoop (splitLinesLoop start as).2 bs).1,
        (splitLinesLoop (splitLinesLoop start as).2 bs).2) := by
  induction as generalizing start with
  | nil => rfl
  | cons b as ih =>
    rw [List.cons_append, splitLinesLoop, splitLinesLoop]
    split
    · rw [ih]
      split_ifs <;> rfl
    · exact ih _

/-- A remainder holds no terminator, so that scanning it again finds no line. -/
theorem splitLinesLoop_remainder (bs : List UInt8) {start : List UInt8}
    (hstart : ∀ b ∈ start, isTerminatorByte b = false) :
    ∀ b ∈ (splitLinesLoop start bs).2, isTerminatorByte b = false := by
  induction bs generalizing start with
  | nil => exact hstart
  | cons b bs ih =>
    rw [splitLinesLoop]
    split
    · exact ih (by simp)
    · rename_i hb
      refine ih fun c hc => ?_
      rcases List.mem_append.mp hc with hc | hc
      · exact hstart c hc
      · rwa [List.mem_singleton.mp hc, ← Bool.not_eq_true]

/-- **Nor do the cuts change what the splitter with a remainder finds.** Its remainder has no
terminator in it, and that is the invariant. -/
theorem splitReads_eq (reads : List (List UInt8)) {remainder : List UInt8}
    (h : ∀ b ∈ remainder, isTerminatorByte b = false) :
    splitReads remainder reads = splitLinesLoop remainder reads.flatten := by
  induction reads generalizing remainder with
  | nil => rfl
  | cons read reads ih =>
    have hsplit : splitLines (remainder ++ read) = splitLinesLoop remainder read := by
      rw [splitLines, splitLinesLoop_append h, List.nil_append]
    rw [splitReads, hsplit, List.flatten_cons, splitLinesLoop_append_reads]
    simp only [ih (splitLinesLoop_remainder read h)]

/-! ### The two of them -/

/-- **The two splitters agree on every stream, however it is cut into reads**: what
the assembler completes over the reads is what it completes over the stream at once,
namely the lines of the stream, and without the empty lines it is what the splitter
with a remainder finds over the same reads. -/
theorem LineAssembler.lines_feedReads (reads : List (List UInt8)) :
    (fresh.feedReads reads).2 = (fresh.feed reads.flatten).2 ∧
      (fresh.feedReads reads).2 = streamLines [] reads.flatten ∧
        dropEmpty (fresh.feedReads reads).2 = (splitReads [] reads).1 := by
  rw [feedReads_eq, splitReads_eq reads (by simp)]
  exact ⟨rfl, (lines_feed reads.flatten).1 [], feed_eq_splitLines reads.flatten⟩

end Convers
