import Convers.Core.Model
import Convers.Protocol.HostCommandCodec

/-!
# What a written number is read as

A number field is read by accumulating its digits in an unchecked 64-bit integer
and keeping the low 32 bits. A numeral of any length (`Convers.Numeral`) is thus
read as its value *modulo `2 ^ 32`* (`Convers.Numeral.parseAtoi_text`): the wrap
at `2 ^ 64` is lost in the one at `2 ^ 32`.

| numeral | read as | theorem |
|---|---|---|
| in the range of 32 bits | its value | `Convers.Numeral.toInt_ofInt_value` |
| out of range | the value modulo `2 ^ 32` | `Convers.taken_ofInt_iff` |

So a number that is out of range still names a channel, signs a user off or
grants the global role as soon as its remainder does, and in no other case
(`Convers.HostCommandCodec.numerals_kept_iff`), both for one number and for the numbers of a whole
line, which are read at the places `Convers.numberPlaces` lists.
-/

namespace Convers

/-! ### Numerals -/

/-- The number a digit string writes. -/
def digitsValue (s : Text) : ℕ := Nat.ofDigits 10 (s.reverse.map fun c => c.toNat - '0'.toNat)

theorem digitsValue_concat (s : Text) (c : Char) :
    digitsValue (s ++ [c]) = (c.toNat - '0'.toNat) + 10 * digitsValue s := by
  simp [digitsValue, Nat.ofDigits_cons]

/-- A digit string accumulates to the number it writes, modulo `2 ^ 64`. -/
theorem atolDigits_eq {s : Text} (hs : ∀ c ∈ s, isAsciiDigit c = true) :
    atolDigits 0 s = Int64.ofInt (digitsValue s) := by
  induction s using List.reverseRecOn with
  | nil => rfl
  | append_singleton s c ih =>
    have hs' : ∀ d ∈ s, isAsciiDigit d = true := fun d hd => hs d (by simp [hd])
    rw [atolDigits_concat hs' 0 (hs c (by simp)), ih hs', digitsValue_concat]
    set d := c.toNat - '0'.toNat
    calc Int64.ofInt (digitsValue s : ℤ) * 10 + Int64.ofNat d
        = Int64.ofInt (digitsValue s : ℤ) * Int64.ofInt 10 + Int64.ofInt (d : ℤ) := by
          rw [Int64.ofInt_eq_ofNat (n := d)]
          rfl
      _ = Int64.ofInt ((d + 10 * digitsValue s : ℕ) : ℤ) := by
          rw [← Int64.ofInt_mul, ← Int64.ofInt_add]
          congr 1
          push_cast
          ring

/-- An optionally signed run of decimal digits. -/
structure Numeral where
  /-- The sign, when there is one. -/
  sign : Option Char
  /-- The digits, the most significant first. -/
  digits : Text
  sign_eq : ∀ c ∈ sign, c = '+' ∨ c = '-'
  digits_ne : digits ≠ []
  isAsciiDigit_of_mem : ∀ c ∈ digits, isAsciiDigit c = true

namespace Numeral

/-- The numeral as it is written. -/
def text (n : Numeral) : Text := n.sign.toList ++ n.digits

/-- The true value of a numeral. -/
def value (n : Numeral) :
    ℤ := if n.sign = some '-' then -digitsValue n.digits else digitsValue n.digits

/-- The value fits a 32-bit integer. -/
def Fits (n : Numeral) : Prop := -2 ^ 31 ≤ n.value ∧ n.value < 2 ^ 31

instance (n : Numeral) : Decidable n.Fits := inferInstanceAs (Decidable (_ ∧ _))

/-- **A numeral is read as its value modulo `2 ^ 64`.** -/
theorem parseAtol_text (n : Numeral) (fallback : Int64) :
    parseAtol n.text fallback = Int64.ofInt n.value := by
  obtain ⟨sign, digits, hsign, hne, hdigits⟩ := n
  obtain ⟨c, s, rfl⟩ := List.exists_cons_of_ne_nil hne
  have hc : isAsciiDigit c = true := hdigits c (by simp)
  obtain ⟨hsp, hplus, hminus⟩ := isSpace_of_isAsciiDigit hc
  have hval := atolDigits_eq hdigits
  rcases sign with _ | sign
  · rw [parseAtol, if_neg (by simp [text]), text, Option.toList_none, List.nil_append,
      List.dropWhile_cons_of_neg (by simp [hsp])]
    simp [hplus, hminus, hc, hval, value]
  · rcases hsign sign rfl with rfl | rfl
    · rw [parseAtol, if_neg (by simp [text]), text, Option.toList_some, List.singleton_append,
        List.dropWhile_cons_of_neg (by decide)]
      simp [hc, hval, value]
    · rw [parseAtol, if_neg (by simp [text]), text, Option.toList_some, List.singleton_append,
        List.dropWhile_cons_of_neg (by decide)]
      simp [hc, hval, value, Int64.ofInt_neg]

/-- **A numeral is read as its value modulo `2 ^ 32`**: of the wrap at `2 ^ 64` nothing is left in
the low half. So a numeral of any length means one of the numbers there are. -/
theorem parseAtoi_text (n : Numeral) (fallback : Int32) :
    parseAtoi n.text fallback = Int32.ofInt n.value := by
  rw [parseAtoi, parseAtol_text, Int64.toInt32_ofInt]

/-- In range, that is the value. -/
theorem toInt_ofInt_value {n : Numeral} (h : n.Fits) : (Int32.ofInt n.value).toInt = n.value :=
  Int32.toInt_ofInt_of_le h.1 h.2

end Numeral

/-! ### What a number is taken for -/

/-- A number is taken for something: it is a valid channel or, where `-1` is a
signal of its own, it is `-1`. -/
def Taken (signal : Bool) (number : Int32) : Prop :=
  ChannelNumber.isValid number = true ∨ signal = true ∧ number = -1

/-- The remainder of a value is taken for something: the remainders of the valid
channels, and that of `-1`. -/
def TakenModulo (signal : Bool) (value : ℤ) : Prop :=
  value % 2 ^ 32 ≤ 32767 ∨ signal = true ∧ value % 2 ^ 32 = 2 ^ 32 - 1

instance (signal : Bool) (number : Int32) : Decidable (Taken signal number) :=
  inferInstanceAs (Decidable (_ ∨ _))

instance (signal : Bool) (value : ℤ) : Decidable (TakenModulo signal value) :=
  inferInstanceAs (Decidable (_ ∨ _))

/-- What is kept of a value is taken for what its remainder is. -/
theorem taken_ofInt_iff (signal : Bool) (value : ℤ) :
    Taken signal (Int32.ofInt value) ↔ TakenModulo signal value := by
  have hbmod : (Int32.ofInt value).toInt = value.bmod (2 ^ 32) := Int32.toInt_ofInt
  have hzero : (0 : Int32).toInt = 0 := rfl
  have hmax : (32767 : Int32).toInt = 32767 := rfl
  have hminus : (-1 : Int32).toInt = -1 := rfl
  have hvalid : ChannelNumber.isValid (Int32.ofInt value) = true ↔ value % 2 ^ 32 ≤ 32767 := by
    simp only [ChannelNumber.isValid, Bool.and_eq_true, decide_eq_true_eq, Int32.le_iff_toInt_le,
      hbmod, hzero, hmax, Int.bmod_def]
    omega
  have hsignal : Int32.ofInt value = -1 ↔ value % 2 ^ 32 = 2 ^ 32 - 1 := by
    rw [← Int32.toInt_inj, hbmod, hminus, Int.bmod_def]
    omega
  rw [Taken, TakenModulo, hvalid, hsignal]

/-! ### One number -/

/-- A number field holds a numeral faithfully: its value when that fits, and
nothing a channel, a sign-off or the global role would be taken for otherwise. -/
def Numeral.Kept (n : Numeral) (number : Int32) : Prop :=
  (n.Fits → number.toInt = n.value) ∧ (¬ n.Fits → ¬ Taken true number)

/-- The number that is read is kept unless the remainder of an out-of-range value
is taken for something. -/
theorem Numeral.kept_iff (n : Numeral) :
    n.Kept (Int32.ofInt n.value) ↔ (n.Fits ∨ ¬ TakenModulo true n.value) := by
  rw [Kept, taken_ofInt_iff]
  by_cases h : n.Fits
  · simp [h, toInt_ofInt_value h]
  · simp [h]

/-! ### The numbers of a line -/

namespace HostCommandCodec

open HostCommand ConversTokenizer

/-- The places of the channel numbers on the line of a verb, counted in words from
the verb on, each with whether `-1` is a signal there: the channel a user goes to,
where it signs off, and the channel of an operator, where it is the global role. -/
def numberPlaces (verb : Text) : List (Bool × ℕ) :=
  if verb = "USER".toList ∨ verb = "OBSV".toList then [(false, 4), (true, 5)]
  else if verb = "CMSG".toList then [(false, 2)]
  else if verb = "TOPI".toList then [(false, 4)]
  else if verb = "MODE".toList then [(false, 1)]
  else if verb = "OPER".toList then [(true, 2)]
  else if verb = "INVI".toList then [(false, 3)]
  else []

/-- The words of a line at these places. -/
def numberWords (line : Text) : List (Bool × Text) :=
  match stripPrefix line with
  | none => []
  | some body =>
    (numberPlaces (toUpperInvariant ((words body).headD []))).map fun p =>
      (p.1, (words body).getD p.2 [])

/-- The channel numbers of a command, in the same order. -/
def numbers : HostCommand → List (Bool × Int32)
  | hostUser _ _ _ fromChannel toChannel _ _ => [(false, fromChannel), (true, toChannel)]
  | hostChannelMessage _ channel _ => [(false, channel)]
  | hostTopic _ _ _ channel _ => [(false, channel)]
  | hostMode channel _ => [(false, channel)]
  | hostOper _ channel _ => [(true, channel)]
  | hostInvite _ _ channel => [(false, channel)]
  | _ => []

/-- The tokenizer behind its next word. -/
def skip (t : ConversTokenizer) : ConversTokenizer := t.next.2

theorem words_skip (t : ConversTokenizer) (k : ℕ) :
    words (skip^[k] t).line = (words t.line).drop k := by
  induction k generalizing t with
  | zero => rfl
  | succ k ih => rw [Function.iterate_succ_apply, ih, skip, words_next, List.drop_tail]

/-- The word that is read after some others. -/
theorem next_skip (t : ConversTokenizer) (k : ℕ) :
    (skip^[k] t).next.1 = (words t.line).getD k [] := by
  rw [next_fst, words_skip]
  simp [List.headD_eq_head?_getD, List.getD_eq_getElem?_getD]

/-- Each reader reads its channel numbers at the places of its verb. -/
theorem numbers_reader {reader : Text × (ConversTokenizer → HostCommand)} (h : reader ∈ readers)
    (t : ConversTokenizer) :
    numbers (reader.2 (skip t)) =
      (numberPlaces reader.1).map fun p => (p.1, parseAtoi (skip^[p.2] t).next.1 0) := by
  simp only [readers, List.mem_cons, List.not_mem_nil, or_false] at h
  rcases h with rfl | rfl | rfl | rfl | rfl | rfl | rfl | rfl | rfl | rfl | rfl | rfl | rfl | rfl |
    rfl | rfl | rfl | rfl | rfl | rfl <;> rfl

/-- A verb that is not modelled has no channel numbers. -/
theorem numberPlaces_of_not_mem {verb : Text} (h : verb ∉ modelledVerbs) :
    numberPlaces verb = [] := by
  have hne (v : Text) (hv : v ∈ modelledVerbs) : verb ≠ v := fun heq => h (heq ▸ hv)
  have hmodelled : ∀ v ∈ ["USER", "OBSV", "CMSG", "TOPI", "MODE", "OPER", "INVI"].map String.toList,
      v ∈ modelledVerbs := by decide
  simp only [List.map_cons, List.map_nil, List.forall_mem_cons] at hmodelled
  obtain ⟨huser, hobsv, hcmsg, htopi, hmode, hoper, hinvi, -⟩ := hmodelled
  rw [numberPlaces, if_neg (not_or.mpr ⟨hne _ huser, hne _ hobsv⟩), if_neg (hne _ hcmsg),
    if_neg (hne _ htopi), if_neg (hne _ hmode), if_neg (hne _ hoper), if_neg (hne _ hinvi)]

/-- **The channel numbers of a command are read from the words at their places.** What is shown of a
numeral in a token is shown of it in a line by this. -/
theorem numbers_parseBody (body : Text) :
    numbers (parseBody body) =
      (numberPlaces (toUpperInvariant ((words body).headD []))).map fun p =>
        (p.1, parseAtoi ((words body).getD p.2 []) 0) := by
  have hverb : (words body).headD [] = (next ⟨body⟩).1 := (next_fst ⟨body⟩).symm
  rw [hverb]
  simp only [parseBody]
  split
  · rename_i reader hfind
    have hname : reader.1 = toUpperInvariant (next ⟨body⟩).1 := by
      simpa using List.find?_some hfind
    rw [← hname]
    refine (numbers_reader (List.mem_of_find?_eq_some hfind) ⟨body⟩).trans ?_
    simp only [next_skip]
  · rename_i hfind
    rw [numberPlaces_of_not_mem]
    · rfl
    · intro hmem
      obtain ⟨reader, hreader, hname⟩ := List.mem_map.mp hmem
      exact List.find?_eq_none.mp hfind reader hreader (decide_eq_true hname)

/-- Reading a line reads the words at the places of the channel numbers. -/
theorem numbers_of_parse {line : Text} {c : HostCommand} (h : parse line = .ok c) :
    numbers c = (numberWords line).map fun p => (p.1, parseAtoi p.2 0) := by
  rcases hbody : stripPrefix line with _ | body
  · rw [parse, hbody] at h
    cases h
  · rw [parse, hbody] at h
    cases h
    rw [numberWords, hbody, numbers_parseBody, List.map_map]
    rfl

/-- No out-of-range number of a line is taken for something: where the word at the
place of a channel number is a numeral that does not fit, the number of the
command is neither a valid channel nor a signal. -/
def NoneTaken (line : Text) (c : HostCommand) : Prop :=
  ∀ (i : ℕ) (signal : Bool) (word : Text) (number : Int32),
    (numberWords line)[i]? = some (signal, word) → (numbers c)[i]? = some (signal, number) →
    ∀ n : Numeral, word = n.text → ¬ n.Fits → ¬ Taken signal number

theorem noneTaken_iff {line : Text} {c : HostCommand} (h : parse line = .ok c) :
    NoneTaken line c ↔ ∀ p ∈ numberWords line, ∀ n : Numeral, p.2 = n.text →
      n.Fits ∨ ¬ TakenModulo p.1 n.value := by
  have hread (i : ℕ) : (numbers c)[i]? =
      (numberWords line)[i]?.map fun p => (p.1, parseAtoi p.2 0) := by
    rw [numbers_of_parse h, List.getElem?_map]
  constructor
  · rintro hnone ⟨signal, word⟩ hmem n rfl
    obtain ⟨i, hi⟩ := List.mem_iff_getElem?.mp hmem
    have hnumber : (numbers c)[i]? = some (signal, Int32.ofInt n.value) := by
      rw [hread, hi, Option.map_some, n.parseAtoi_text]
    have htaken := hnone i signal _ _ hi hnumber n rfl
    rw [taken_ofInt_iff] at htaken
    tauto
  · rintro hall i signal word number hi hnumber n rfl hfits
    rw [hread, hi, Option.map_some, n.parseAtoi_text, Option.some.injEq, Prod.mk.injEq] at hnumber
    obtain ⟨-, rfl⟩ := hnumber
    rw [taken_ofInt_iff]
    exact (hall _ (List.mem_of_getElem? hi) n rfl).resolve_left hfits

/-- **An out-of-range number is taken for something exactly when its remainder
is**: read as a number field, a numeral is kept, and on a line no out-of-range
channel number is taken for a channel, a sign-off or the global role, if and only
if the numerals fit 32 bits or leave a remainder modulo `2 ^ 32` that is none. -/
theorem numerals_kept_iff (n : Numeral) (t : ConversTokenizer) (fallback : Int32) (line : Text)
    (c : HostCommand) :
    (t.next.1 = n.text →
      (n.Kept (t.nextInt fallback).1 ↔ (n.Fits ∨ ¬ TakenModulo true n.value))) ∧
    (parse line = .ok c →
      (NoneTaken line c ↔ ∀ p ∈ numberWords line, ∀ n : Numeral, p.2 = n.text →
        n.Fits ∨ ¬ TakenModulo p.1 n.value)) := by
  constructor
  · intro h
    have hread : (t.nextInt fallback).1 = Int32.ofInt n.value := by
      rw [← n.parseAtoi_text fallback, ← h]
      rfl
    rw [hread, n.kept_iff]
  · exact noneTaken_iff

/-- The least number above the range of 32 bits unsigned, less one: its remainder
is that of `-1`. -/
def maxUnsigned : Numeral where
  sign := none
  digits := "4294967295".toList
  sign_eq := by simp
  digits_ne := by decide
  isAsciiDigit_of_mem := by decide

/-- The line of a user that goes to that channel. -/
def farUserLine : Text := "/..USER dl9sau hamburg 0 0 4294967295 bye".toList

/-- The number and the line, whose remainder signs the user off. -/
theorem numerals_kept_farUserLine :
    (maxUnsigned.Kept (nextInt ⟨"4294967295 bye".toList⟩ 0).1 ↔
      (maxUnsigned.Fits ∨ ¬ TakenModulo true maxUnsigned.value)) ∧
    (NoneTaken farUserLine (hostUser "dl9sau".toList "hamburg".toList 0 0 (-1) "bye".toList false) ↔
      ∀ p ∈ numberWords farUserLine, ∀ n : Numeral, p.2 = n.text →
        n.Fits ∨ ¬ TakenModulo p.1 n.value) := by
  obtain ⟨hnumber, hline⟩ := numerals_kept_iff maxUnsigned ⟨"4294967295 bye".toList⟩ 0 farUserLine
    (hostUser "dl9sau".toList "hamburg".toList 0 0 (-1) "bye".toList false)
  exact ⟨hnumber (by decide), hline (by rfl)⟩

/-- That number is read as `-1`, and its line signs the user off. -/
theorem not_numerals_kept :
    (¬ ∀ (n : Numeral) (t : ConversTokenizer) (fallback : Int32), t.next.1 = n.text →
      n.Kept (t.nextInt fallback).1) ∧
    ¬ ∀ (line : Text) (c : HostCommand), parse line = .ok c → NoneTaken line c := by
  have hfits : ¬ maxUnsigned.Fits := by decide
  constructor
  · intro h
    have hkept := h maxUnsigned ⟨"4294967295 bye".toList⟩ 0 (by decide)
    exact hkept.2 hfits (by decide)
  · intro h
    have hnone := h farUserLine
      (hostUser "dl9sau".toList "hamburg".toList 0 0 (-1) "bye".toList false) (by rfl)
    exact hnone 1 true "4294967295".toList (-1) (by decide) (by decide) maxUnsigned rfl hfits
      (by decide)

end HostCommandCodec

end Convers
