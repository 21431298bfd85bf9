import Convers.Text

/-!
# The argument tokenizer

The cursor every host command is read with: blank-separated tokens, numbers by
the lenient C rules, and the rest of the line as the last field.

A reader that has consumed part of a line is the text it still has to read, so
`Convers.ConversTokenizer` is just that. What the codec needs of it is one fact
per reading operation, on a text that was *written* field by field:

| operation | written | read |
|---|---|---|
| `Convers.ConversTokenizer.next` | a `Convers.IsToken` and a blank | the token |
| `Convers.ConversTokenizer.nextInt`, `nextLong` | `Convers.decimal` of a number | the number |
| `Convers.ConversTokenizer.rest` | a `Convers.IsFreeText` | the text |

The number parser accumulates in an unchecked 64-bit integer
(`Convers.atolDigits`), so it computes the number *modulo `2 ^ 64`*
(`Convers.parseAtol_decimal`); that is the identity on what a 64-bit field is
written as, the least value included.
-/

namespace Convers

/-- C `isspace`. -/
def isSpace (c : Char) : Bool :=
  c = ' ' || c = '\t' || c = '\n' || c = '\x0b' || c = '\x0c' || c = '\r'

/-- A token: not empty, without blanks. -/
def IsToken (t : Text) : Prop := t ≠ [] ∧ ∀ c ∈ t, isSpace c = false

/-- A free-text field: it does not start with a blank. -/
def IsFreeText (t : Text) : Prop := ∀ c ∈ t.head?, isSpace c = false

instance (t : Text) : Decidable (IsToken t) := inferInstanceAs (Decidable (_ ∧ _))

instance (t : Text) : Decidable (IsFreeText t) :=
  decidable_of_iff (t.head?.all (! isSpace ·) = true) (by cases t <;> simp [IsFreeText])

theorem isSpace_of_isTerminator {c : Char} (h : isTerminator c = true) : isSpace c = true := by
  rcases (by simpa [isTerminator] using h : c = cr ∨ c = lf) with rfl | rfl <;> decide

/-- Every blank of C is a blank of the framework. -/
theorem isWhiteSpace_of_isSpace {c : Char} (h : isSpace c = true) : isWhiteSpace c = true := by
  simp only [isSpace, Bool.or_eq_true, decide_eq_true_eq] at h
  rcases h with ((((rfl | rfl) | rfl) | rfl) | rfl) | rfl <;> decide

theorem isSpace_of_mem_decimal {n : ℤ} {c : Char} (h : c ∈ decimal n) : isSpace c = false := by
  rw [Bool.eq_false_iff]
  intro hc
  exact Bool.noConfusion ((isWhiteSpace_of_mem_decimal h).symm.trans (isWhiteSpace_of_isSpace hc))

/-- **A number is a token.** -/
theorem isToken_decimal (n : ℤ) : IsToken (decimal n) :=
  ⟨decimal_ne_nil n, fun _ h => isSpace_of_mem_decimal h⟩

/-! ### The number parsers -/

/-- `char.IsAsciiDigit`. -/
def isAsciiDigit (c : Char) : Bool := '0' ≤ c && c ≤ '9'

/-- The digit loop of `ParseAtol`: unchecked accumulation in 64 bits, up to the
first character that is no digit. -/
def atolDigits : Int64 → Text → Int64
  | value, [] => value
  | value, c :: s =>
    if isAsciiDigit c then atolDigits (value * 10 + Int64.ofNat (c.toNat - '0'.toNat)) s
    else value

/-- `ConversTokenizer.ParseAtol`. -/
def parseAtol (s : Text) (fallback : Int64) : Int64 :=
  if s.length = 0 then fallback
  else
    let s := s.dropWhile isSpace
    let neg := s.head? = some '-'
    let s := if s.head? = some '+' ∨ s.head? = some '-' then s.tail else s
    match s with
    | [] => fallback
    | c :: _ =>
      if isAsciiDigit c then
        let value := atolDigits 0 s
        if neg then -value else value
      else fallback

/-- `ConversTokenizer.ParseAtoi`: the low 32 bits of `Convers.parseAtol`. -/
def parseAtoi (s : Text) (fallback : Int32) : Int32 := (parseAtol s fallback.toInt64).toInt32

theorem isAsciiDigit_digitChar {d : ℕ} (hd : d < 10) : isAsciiDigit (Nat.digitChar d) = true := by
  interval_cases d <;> decide

theorem toNat_digitChar {d : ℕ} (hd : d < 10) : (Nat.digitChar d).toNat - '0'.toNat = d := by
  interval_cases d <;> decide

/-- One more digit at the end of a digit string. -/
theorem atolDigits_concat {s : Text} (hs : ∀ c ∈ s, isAsciiDigit c = true) (v : Int64) {c : Char}
    (hc : isAsciiDigit c = true) :
    atolDigits v (s ++ [c]) = atolDigits v s * 10 + Int64.ofNat (c.toNat - '0'.toNat) := by
  induction s generalizing v with
  | nil => simp [atolDigits, hc]
  | cons d s ih =>
    rw [List.cons_append, atolDigits, atolDigits, if_pos (hs d (by simp)), if_pos (hs d (by simp)),
      ih fun x hx => hs x (by simp [hx])]

theorem isAsciiDigit_of_mem_toDigits {n : ℕ} {c : Char} (h : c ∈ Nat.toDigits 10 n) :
    isAsciiDigit c = true := by
  obtain ⟨d, hd, rfl⟩ := mem_toDigits_ten h
  exact isAsciiDigit_digitChar hd

/-- The digits of a number accumulate to it, modulo `2 ^ 64`. -/
theorem atolDigits_toDigits (n : ℕ) : atolDigits 0 (Nat.toDigits 10 n) = Int64.ofInt n := by
  induction n using Nat.strong_induction_on with
  | _ n ih =>
    have hd : n % 10 < 10 := Nat.mod_lt _ (by norm_num)
    rw [toDigits_ten]
    split
    · rename_i h
      rw [List.nil_append, atolDigits, if_pos (isAsciiDigit_digitChar hd), toNat_digitChar hd,
        Nat.mod_eq_of_lt h]
      simp [atolDigits, Int64.ofInt_eq_ofNat]
    · rename_i h
      rw [atolDigits_concat (fun c hc => isAsciiDigit_of_mem_toDigits hc) _
        (isAsciiDigit_digitChar hd), toNat_digitChar hd, ih (n / 10) (by omega)]
      have hn : (n : ℤ) = (n / 10 : ℕ) * 10 + (n % 10 : ℕ) := by omega
      calc Int64.ofInt ((n / 10 : ℕ) : ℤ) * 10 + Int64.ofNat (n % 10)
          = Int64.ofInt ((n / 10 : ℕ) : ℤ) * Int64.ofInt 10 + Int64.ofInt ((n % 10 : ℕ) : ℤ) := by
            rw [Int64.ofInt_eq_ofNat (n := n % 10)]
            rfl
        _ = Int64.ofInt n := by rw [← Int64.ofInt_mul, ← Int64.ofInt_add, ← hn]

/-- A number in base ten starts with a digit. -/
theorem toDigits_head (n : ℕ) : ∃ c s, Nat.toDigits 10 n = c :: s ∧ isAsciiDigit c = true := by
  rcases h : Nat.toDigits 10 n with _ | ⟨c, s⟩
  · exact absurd h Nat.toDigits_ne_nil
  · exact ⟨c, s, rfl, isAsciiDigit_of_mem_toDigits (n := n) (by simp [h])⟩

theorem isSpace_of_isAsciiDigit {c : Char} (h : isAsciiDigit c = true) :
    isSpace c = false ∧ c ≠ '+' ∧ c ≠ '-' := by
  refine ⟨?_, ?_, ?_⟩
  · rw [Bool.eq_false_iff]
    intro hc
    simp only [isSpace, Bool.or_eq_true, decide_eq_true_eq] at hc
    rcases hc with ((((rfl | rfl) | rfl) | rfl) | rfl) | rfl <;> exact absurd h (by decide)
  · rintro rfl
    exact absurd h (by decide)
  · rintro rfl
    exact absurd h (by decide)

/-- **The parser reads a written number back**, modulo `2 ^ 64`. Within the range of the type
nothing is lost. -/
theorem parseAtol_decimal (n : ℤ) (fallback : Int64) :
    parseAtol (decimal n) fallback = Int64.ofInt n := by
  obtain ⟨c, s, hcs, hc⟩ := toDigits_head n.natAbs
  obtain ⟨hsp, hplus, hminus⟩ := isSpace_of_isAsciiDigit hc
  have hval := atolDigits_toDigits n.natAbs
  rw [parseAtol, if_neg (by simp [List.length_eq_zero_iff, decimal_ne_nil])]
  rw [hcs] at hval
  by_cases hn : n < 0
  · have hneg : (n.natAbs : ℤ) = -n := by omega
    rw [decimal, if_pos hn, hcs, List.dropWhile_cons_of_neg (by decide)]
    simp only [List.head?_cons, or_true, if_true, List.tail_cons, hc, hval, hneg]
    rw [← Int64.ofInt_neg, neg_neg]
  · have hpos : (n.natAbs : ℤ) = n := by omega
    rw [decimal, if_neg hn, hcs, List.dropWhile_cons_of_neg (by simp [hsp])]
    simp [hplus, hminus, hc, hval, hpos]

/-- A 64-bit number is read back as it is. -/
theorem parseAtol_decimal_toInt (n : Int64) (fallback : Int64) :
    parseAtol (decimal n.toInt) fallback = n := by
  rw [parseAtol_decimal, Int64.ofInt_toInt]

/-- A 32-bit number is read back as it is. -/
theorem parseAtoi_decimal_toInt (n : Int32) (fallback : Int32) :
    parseAtoi (decimal n.toInt) fallback = n := by
  rw [parseAtoi, parseAtol_decimal, Int64.toInt32_ofInt, Int32.ofInt_toInt]

/-! ### The cursor -/

/-- A tokenizer: what is left of its line. -/
structure ConversTokenizer where
  /-- The characters from the current position on. -/
  line : Text

namespace ConversTokenizer

/-- `SkipSpace`. -/
def skipSpace (t : ConversTokenizer) : ConversTokenizer := ⟨t.line.dropWhile isSpace⟩

/-- `Next`: the next token, empty when there is none. -/
def next (t : ConversTokenizer) : Text × ConversTokenizer :=
  let s := t.skipSpace.line
  (s.takeWhile (! isSpace ·), ⟨s.dropWhile (! isSpace ·)⟩)

/-- `NextInt`. -/
def nextInt (t : ConversTokenizer) (fallback : Int32 := 0) : Int32 × ConversTokenizer :=
  let (tok, t) := t.next
  (parseAtoi tok fallback, t)

/-- `NextLong`. -/
def nextLong (t : ConversTokenizer) (fallback : Int64 := 0) : Int64 × ConversTokenizer :=
  let (tok, t) := t.next
  (parseAtol tok fallback, t)

/-- `Rest`: everything to the end of the line, after the blanks. -/
def rest (t : ConversTokenizer) : Text := t.skipSpace.line

/-- A text that is over, or goes on with a blank: what may follow a token. -/
def Stops (s : Text) : Prop := s = [] ∨ ∃ s', s = ' ' :: s'

theorem stops_nil : Stops [] := Or.inl rfl

theorem stops_blank (s : Text) : Stops (' ' :: s) := Or.inr ⟨s, rfl⟩

/-- **A written token is read back**, and the cursor stops where it ends. The fields of a command
are read off one after another by it. -/
theorem next_token {tok s : Text} (htok : IsToken tok) (hs : Stops s) :
    next ⟨tok ++ s⟩ = (tok, ⟨s⟩) := by
  obtain ⟨hne, hfree⟩ := htok
  have hskip : (tok ++ s).dropWhile isSpace = tok ++ s := by
    rcases tok with _ | ⟨c, tok⟩
    · exact absurd rfl hne
    · rw [List.cons_append, List.dropWhile_cons_of_neg (by simp [hfree c (by simp)])]
  have hall : ∀ c ∈ tok, (! isSpace c) = true := fun c hc => by simp [hfree c hc]
  simp only [next, skipSpace, hskip, List.takeWhile_append_of_pos hall,
    List.dropWhile_append_of_pos hall]
  rcases hs with rfl | ⟨s', rfl⟩
  · simp
  · rw [List.takeWhile_cons_of_neg (by decide), List.dropWhile_cons_of_neg (by decide),
      List.append_nil]

/-- A blank before a token is skipped. -/
theorem next_blank (s : Text) : next ⟨' ' :: s⟩ = next ⟨s⟩ := by
  simp only [next, skipSpace]
  rw [List.dropWhile_cons_of_pos (by decide)]

/-- A token after a blank. -/
theorem next_blank_token {tok s : Text} (htok : IsToken tok) (hs : Stops s) :
    next ⟨' ' :: (tok ++ s)⟩ = (tok, ⟨s⟩) := by
  rw [next_blank, next_token htok hs]

/-- A 32-bit number after a blank. -/
theorem nextInt_blank_decimal (n : Int32) {s : Text} (hs : Stops s) :
    nextInt ⟨' ' :: (decimal n.toInt ++ s)⟩ = (n, ⟨s⟩) := by
  rw [nextInt, next_blank_token (isToken_decimal _) hs]
  simp only [parseAtoi_decimal_toInt]

/-- A 64-bit number after a blank. -/
theorem nextLong_blank_decimal (n : Int64) {s : Text} (hs : Stops s) :
    nextLong ⟨' ' :: (decimal n.toInt ++ s)⟩ = (n, ⟨s⟩) := by
  rw [nextLong, next_blank_token (isToken_decimal _) hs]
  simp only [parseAtol_decimal_toInt]

theorem rest_freeText {s : Text} (hs : IsFreeText s) : rest ⟨s⟩ = s := by
  rcases s with _ | ⟨c, s⟩
  · rfl
  · simp only [rest, skipSpace]
    rw [List.dropWhile_cons_of_neg (by simp [hs c (by simp)])]

/-- **A written text is read back.** It is the last field of a command, and the one that may have
blanks in it. -/
theorem rest_blank {s : Text} (hs : IsFreeText s) : rest ⟨' ' :: s⟩ = s := by
  rw [← rest_freeText hs]
  simp only [rest, skipSpace]
  rw [List.dropWhile_cons_of_pos (by decide), List.dropWhile_idempotent]

end ConversTokenizer

/-! ### The words of a line -/

/-- The words of a text: its stretches without blanks. -/
def words (t : Text) : List Text := (t.splitOnP isSpace).filter (· ≠ [])

theorem words_blank {c : Char} (hc : isSpace c = true) (t : Text) : words (c :: t) = words t := by
  rw [words, words, List.splitOnP_cons_eq_if_modifyHead, if_pos hc,
    List.filter_cons_of_neg (by simp)]

theorem words_blanks {s : Text} (hs : ∀ c ∈ s, isSpace c = true) (t : Text) :
    words (s ++ t) = words t := by
  induction s with
  | nil => rfl
  | cons c s ih =>
    rw [List.cons_append, words_blank (hs c (by simp)), ih fun d hd => hs d (by simp [hd])]

/-- A word ends at the next blank. -/
theorem words_token {tok : Text} (htok : IsToken tok) {t : Text}
    (ht : ∀ c ∈ t.head?, isSpace c = true) : words (tok ++ t) = tok :: words t := by
  rcases t with _ | ⟨c, t⟩
  · rw [List.append_nil, words, List.splitOnP_eq_singleton htok.2]
    simp [words, htok.1]
  · have hc : isSpace c = true := ht c rfl
    rw [words_blank hc, words, List.splitOnP_append_cons_of_forall_mem htok.2 c hc]
    simp [words, htok.1]

namespace ConversTokenizer

/-- The tokenizer reads the words of its line: none is left, or the first is read. -/
theorem next_cases (t : ConversTokenizer) :
    (words t.line = [] ∧ t.next = ([], ⟨[]⟩)) ∨
      ∃ tok t', t.next = (tok, t') ∧ words t.line = tok :: words t'.line := by
  have hsplit := List.takeWhile_append_dropWhile (p := isSpace) (l := t.line)
  have hblank : ∀ c ∈ t.line.takeWhile isSpace, isSpace c = true :=
    fun c hc => List.mem_takeWhile_imp hc
  have hwords := words_blanks hblank (t.line.dropWhile isSpace)
  rw [hsplit] at hwords
  rw [hwords]
  simp only [next, skipSpace]
  rcases hs : t.line.dropWhile isSpace with _ | ⟨c, s⟩
  · exact Or.inl ⟨rfl, rfl⟩
  · right
    refine ⟨_, _, rfl, ?_⟩
    have hc : isSpace c = false := by
      have hd : t.line.dropWhile isSpace ≠ [] := by simp [hs]
      simpa [hs] using List.head_dropWhile_not isSpace hd
    have htok : IsToken ((c :: s).takeWhile (! isSpace ·)) := by
      refine ⟨by rw [List.takeWhile_cons_of_pos (by simp [hc])]; simp, fun d hd => ?_⟩
      simpa using List.mem_takeWhile_imp hd
    have hrest : ∀ d ∈ ((c :: s).dropWhile (! isSpace ·)).head?, isSpace d = true := by
      intro d hd
      rcases hr : (c :: s).dropWhile (! isSpace ·) with _ | ⟨e, r⟩
      · rw [hr] at hd
        simp at hd
      · have hne : (c :: s).dropWhile (! isSpace ·) ≠ [] := by simp [hr]
        have he := List.head_dropWhile_not (! isSpace ·) hne
        rw [hr, List.head?_cons, Option.mem_def, Option.some.injEq] at hd
        simpa [hr, hd] using he
    conv_lhs => rw [← List.takeWhile_append_dropWhile (p := (! isSpace ·)) (l := c :: s)]
    exact words_token htok hrest

/-- **The next token is the next word.** So the tokens of a line are its words, and can be counted.
-/
theorem next_fst (t : ConversTokenizer) : t.next.1 = (words t.line).headD [] := by
  rcases next_cases t with ⟨hw, hn⟩ | ⟨tok, t', hn, hw⟩
  · rw [hn, hw]
    rfl
  · rw [hn, hw]
    rfl

/-- Behind it are the other words. -/
theorem words_next (t : ConversTokenizer) : words t.next.2.line = (words t.line).tail := by
  rcases next_cases t with ⟨hw, hn⟩ | ⟨tok, t', hn, hw⟩
  · rw [hn, hw]
    rfl
  · rw [hn, hw]
    rfl

end ConversTokenizer

end Convers
