import Convers.Text

/-!
# The wire: Latin-1 bytes and lines

The bytes of a link and the two ways the program cuts them into lines. The
encoding is Latin-1 (`Convers.encode`, `Convers.decode`): a byte is a character
and back, and a character the wire cannot carry becomes a question mark, one for
each UTF-16 unit it takes.

A line is framed by `Convers.frameLine`, which adds the terminator of the
transport unless the text ends in one already, and it is split again by
`Convers.splitLines` (a whole buffer, with a remainder) or by
`Convers.LineAssembler.feed` (incrementally). On one stretch of bytes the two
splitters agree once empty lines are dropped
(`Convers.LineAssembler.feed_eq_splitLines`), so what a receiving node makes of a
framed text is settled by one function of its bytes.
-/

namespace Convers

/-! ### Latin-1 -/

/-- A character of Latin-1. -/
def isLatin1 (c : Char) : Bool := c.toNat < 0x100

/-- The bytes of one character: itself in Latin-1, else a `?` for each of its
UTF-16 units. The best-fit fallback of `Encoding.Latin1`, which has a look-alike in Latin-1 for
some of the other characters, is left out. -/
def encodeChar (c : Char) : List UInt8 :=
  if c.toNat < 0x100 then [UInt8.ofNat c.toNat]
  else if c.toNat < 0x10000 then [0x3F]
  else [0x3F, 0x3F]

/-- `ConversWire.Encode`: a string to wire bytes. -/
def encode (t : Text) : List UInt8 := t.flatMap encodeChar

/-- The character of a byte. -/
def decodeByte (b : UInt8) : Char := Char.ofNat b.toNat

/-- `ConversWire.Decode`: wire bytes to a string. -/
def decode (bs : List UInt8) : Text := bs.map decodeByte

@[simp] theorem encode_nil : encode [] = [] := rfl

@[simp] theorem encode_cons (c : Char) (t : Text) : encode (c :: t) = encodeChar c ++ encode t :=
  rfl

@[simp] theorem encode_append (s t : Text) : encode (s ++ t) = encode s ++ encode t := by
  simp [encode]

@[simp] theorem decode_nil : decode [] = [] := rfl

@[simp] theorem decode_cons (b : UInt8) (bs : List UInt8) :
    decode (b :: bs) = decodeByte b :: decode bs := rfl

@[simp] theorem decode_append (as bs : List UInt8) :
    decode (as ++ bs) = decode as ++ decode bs := by
  simp [decode]

theorem toNat_decodeByte (b : UInt8) : (decodeByte b).toNat = b.toNat := by
  have hb : b.toNat < 256 := b.toNat_lt
  rw [decodeByte, Char.toNat_ofNat, if_pos (Or.inl (by omega))]

theorem decodeByte_ofNat {c : Char} (h : c.toNat < 0x100) :
    decodeByte (UInt8.ofNat c.toNat) = c := by
  rw [decodeByte, UInt8.toNat_ofNat', Nat.mod_eq_of_lt h, Char.ofNat_toNat]

/-- **A Latin-1 text survives the wire.** Any other text comes out with another character somewhere,
so the condition is the whole domain. -/
theorem decode_encode {t : Text} (h : ∀ c ∈ t, isLatin1 c = true) : decode (encode t) = t := by
  induction t with
  | nil => rfl
  | cons c t ih =>
    have hc : c.toNat < 0x100 := by simpa [isLatin1] using h c (by simp)
    rw [encode_cons, decode_append, ih fun d hd => h d (by simp [hd]), encodeChar, if_pos hc]
    simp [decodeByte_ofNat hc]

/-! ### Terminators -/

/-- A byte that ends a line. -/
def isTerminatorByte (b : UInt8) : Bool := b = 0x0D || b = 0x0A

@[simp] theorem isTerminator_decodeByte (b : UInt8) :
    isTerminator (decodeByte b) = isTerminatorByte b := by
  have hto : ∀ c : Char, decodeByte b = c ↔ b.toNat = c.toNat := by
    intro c
    rw [← toNat_decodeByte b]
    exact ⟨congrArg _, fun h => Char.ext (UInt32.toNat_inj.mp h)⟩
  have h13 : b = 0x0D ↔ b.toNat = 13 := UInt8.toNat_inj.symm
  have h10 : b = 0x0A ↔ b.toNat = 10 := UInt8.toNat_inj.symm
  simp only [isTerminator, isTerminatorByte, hto, h13, h10]
  rfl

/-- The bytes of a character other than a terminator are none. -/
theorem isTerminatorByte_of_mem_encodeChar {c : Char} (hc : isTerminator c = false) {b : UInt8}
    (hb : b ∈ encodeChar c) : isTerminatorByte b = false := by
  rw [encodeChar] at hb
  split at hb
  · rename_i h
    rw [List.mem_singleton] at hb
    rw [hb, ← isTerminator_decodeByte, decodeByte_ofNat h, hc]
  · split at hb
    · rw [List.mem_singleton] at hb
      rw [hb]
      decide
    · rw [List.mem_pair, or_self] at hb
      rw [hb]
      decide

/-- A terminator is one terminator byte. -/
theorem encodeChar_of_isTerminator {c : Char} (hc : isTerminator c = true) :
    ∃ b, encodeChar c = [b] ∧ isTerminatorByte b = true := by
  rcases (by simpa [isTerminator] using hc : c = cr ∨ c = lf) with rfl | rfl
  · exact ⟨0x0D, by decide, by decide⟩
  · exact ⟨0x0A, by decide, by decide⟩

theorem encodeChar_ne_nil (c : Char) : encodeChar c ≠ [] := by
  rw [encodeChar]
  split_ifs <;> simp

/-! ### Splitting a buffer -/

/-- The loop of `Convers.splitLines`, with the bytes since the last terminator. -/
def splitLinesLoop (start : List UInt8) : List UInt8 → List Text × List UInt8
  | [] => ([], start)
  | b :: bs =>
    if isTerminatorByte b then
      let (lines, remainder) := splitLinesLoop [] bs
      -- a terminator with nothing before it dispatches no line
      (if start.length = 0 then lines else decode start :: lines, remainder)
    else splitLinesLoop (start ++ [b]) bs

/-- `ConversWire.SplitLines`: the complete lines of a buffer, without
terminators and without empty lines, and the bytes after the last terminator. -/
def splitLines (bytes : List UInt8) : List Text × List UInt8 := splitLinesLoop [] bytes

/-- A terminator after some text dispatches it. -/
theorem splitLinesLoop_dispatch {b : UInt8} (hb : isTerminatorByte b = true) {start : List UInt8}
    (hstart : start.length ≠ 0) (bs : List UInt8) :
    splitLinesLoop start (b :: bs) =
      (decode start :: (splitLinesLoop [] bs).1, (splitLinesLoop [] bs).2) := by
  simp only [splitLinesLoop, hb, if_true, if_neg hstart]

/-- A terminator after nothing dispatches nothing. -/
theorem splitLinesLoop_blank {b : UInt8} (hb : isTerminatorByte b = true) (bs : List UInt8) :
    splitLinesLoop [] (b :: bs) = splitLinesLoop [] bs := by
  simp [splitLinesLoop, hb]

/-- Bytes without a terminator join the current line. -/
theorem splitLinesLoop_append {as : List UInt8} (has : ∀ b ∈ as, isTerminatorByte b = false)
    (start bs : List UInt8) :
    splitLinesLoop start (as ++ bs) = splitLinesLoop (start ++ as) bs := by
  induction as generalizing start with
  | nil => simp
  | cons a as ih =>
    rw [List.cons_append, splitLinesLoop, if_neg (by simp [has a (by simp)]),
      ih fun b hb => has b (by simp [hb])]
    simp

/-- Nothing but terminators dispatches the current line, if there is one. -/
theorem splitLinesLoop_terminators {ts : List UInt8} (hts : ∀ b ∈ ts, isTerminatorByte b = true)
    (hne : ts ≠ []) (start : List UInt8) :
    splitLinesLoop start ts = (if start.length = 0 then [] else [decode start], []) := by
  induction ts generalizing start with
  | nil => exact absurd rfl hne
  | cons t ts ih =>
    rw [splitLinesLoop, if_pos (hts t (by simp))]
    rcases eq_or_ne ts [] with rfl | hts'
    · rfl
    · rw [ih (fun b hb => hts b (by simp [hb])) hts']
      rfl

/-- A buffer that still holds a byte of text, and ends in a terminator, has a
line. -/
theorem splitLinesLoop_ne_nil {start bs : List UInt8}
    (h : start ≠ [] ∨ ∃ b ∈ bs, isTerminatorByte b = false)
    (hlast : ∃ as t, bs = as ++ [t] ∧ isTerminatorByte t = true) :
    (splitLinesLoop start bs).1 ≠ [] := by
  induction bs generalizing start with
  | nil =>
    obtain ⟨as, t, has, -⟩ := hlast
    simp at has
  | cons b bs ih =>
    have hrest : bs ≠ [] → ∃ as t, bs = as ++ [t] ∧ isTerminatorByte t = true := by
      intro hbs
      obtain ⟨as, t, has, ht⟩ := hlast
      rcases as with _ | ⟨a, as⟩
      · exact absurd (by simpa using has : b = t ∧ bs = []).2 hbs
      · exact ⟨as, t, (by simpa using has : b = a ∧ bs = as ++ [t]).2, ht⟩
    rw [splitLinesLoop]
    split
    · rename_i hb
      simp only
      split
      · rename_i hstart
        have hex : ∃ c ∈ bs, isTerminatorByte c = false := by
          rcases h with h | ⟨c, hc, hct⟩
          · exact absurd (List.length_eq_zero_iff.mp hstart) h
          · rcases List.mem_cons.mp hc with rfl | hc
            · rw [hb] at hct
              exact Bool.noConfusion hct
            · exact ⟨c, hc, hct⟩
        refine ih (Or.inr hex) (hrest ?_)
        obtain ⟨c, hc, -⟩ := hex
        exact List.ne_nil_of_mem hc
      · simp
    · rename_i hb
      refine ih (Or.inl (by simp)) (hrest ?_)
      rintro rfl
      obtain ⟨as, t, has, ht⟩ := hlast
      have hbt : b = t := by
        rcases as with _ | ⟨a, as⟩
        · simpa using has
        · simp at has
      exact hb (hbt ▸ ht)

/-! ### Framing -/

/-- A line with a terminator at its end, the given one unless it has one. -/
def terminate (terminator : Char) (line : Text) : Text :=
  match line.getLast? with
  | some c => if isTerminator c then line else line ++ [terminator]
  | none => line ++ [terminator]

/-- `FrameLine`, of `ConversWire` (terminator LF) and of a transport (its own
terminator): the bytes of one logical line. -/
def frameLine (terminator : Char) (line : Text) : List UInt8 := encode (terminate terminator line)

/-- The text of a line before its trailing terminators. -/
def lineBody (line : Text) : Text := line.rdropWhile isTerminator

/-- **One logical line**: nothing of the text comes after a terminator. -/
def SingleLine (line : Text) : Prop := ∀ c ∈ lineBody line, isTerminator c = false

instance (line : Text) : Decidable (SingleLine line) :=
  inferInstanceAs (Decidable (∀ c ∈ lineBody line, isTerminator c = false))

/-- A framed line is its body followed by at least one terminator. -/
theorem terminate_eq {terminator : Char} (hterm : isTerminator terminator = true) (line : Text) :
    ∃ ts, terminate terminator line = lineBody line ++ ts ∧ ts ≠ [] ∧
      ∀ c ∈ ts, isTerminator c = true := by
  obtain ⟨ts, hts⟩ : ∃ ts, lineBody line ++ ts = line :=
    List.rdropWhile_prefix isTerminator line
  have hall : ∀ c ∈ ts, isTerminator c = true := by
    have htake : lineBody line ++ line.rtakeWhile isTerminator = line := by
      rw [lineBody, List.rdropWhile, List.rtakeWhile, ← List.reverse_append,
        List.takeWhile_append_dropWhile, List.reverse_reverse]
    have : ts = line.rtakeWhile isTerminator :=
      List.append_cancel_left (hts.trans htake.symm)
    intro c hc
    exact List.mem_rtakeWhile_imp (this ▸ hc)
  rcases hl : line.getLast? with _ | c
  · refine ⟨ts ++ [terminator], ?_, by simp, ?_⟩
    · simp only [terminate, hl]
      rw [← List.append_assoc, hts]
    · simpa using fun c hc => hc.elim (hall c) (· ▸ hterm)
  · rcases hc : isTerminator c with _ | _
    · refine ⟨ts ++ [terminator], ?_, by simp, ?_⟩
      · simp only [terminate, hl, hc]
        rw [if_neg (by simp), ← List.append_assoc, hts]
      · simpa using fun d hd => hd.elim (hall d) (· ▸ hterm)
    · refine ⟨ts, ?_, ?_, hall⟩
      · simp only [terminate, hl, hc, if_true]
        exact hts.symm
      · rintro rfl
        rw [List.append_nil] at hts
        have hlast := List.getLast?_eq_some_iff.mp hl
        have hne : line ≠ [] := by
          rintro rfl
          simp at hl
        have := (List.rdropWhile_eq_self_iff.mp hts) hne
        rw [List.getLast?_eq_some_getLast hne, Option.some.injEq] at hl
        exact this (hl ▸ hc)

theorem lineBody_eq_self {line : Text} (h : ∀ c ∈ line, isTerminator c = false) :
    lineBody line = line := by
  rw [lineBody, List.rdropWhile_eq_self_iff]
  intro hne
  simp [h _ (List.getLast_mem hne)]

/-- A text without terminators is one line. -/
theorem SingleLine.of_forall {line : Text} (h : ∀ c ∈ line, isTerminator c = false) :
    SingleLine line := by
  rw [SingleLine, lineBody_eq_self h]
  exact h

end Convers
