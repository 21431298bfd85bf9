import Mathlib


/-!
# Text: the strings of the program

The wire is Latin-1 and the names on it are compared upper-cased, so almost
every property of the node ends in a fact about a few string operations of the
framework. This file fixes them once, on `Convers.Text` – the list of the
characters of a string – and states what the rest of the development needs:

| operation | what it is | the fact used later |
|---|---|---|
| `Convers.isWhiteSpace` | `char.IsWhiteSpace` | CR and LF are white space |
| `Convers.toUpperInvariant` | `string.ToUpperInvariant` | it is idempotent, and keeps white space, controls, CR and LF |
| `Convers.trim` | `string.Trim` | it is idempotent, and keeps every inner character |
| `Convers.decimal` | `ToString(InvariantCulture)` of a number | it is never empty and has no blank |

The upper-casing is the *simple* case mapping of the invariant globalization
mode the program is built with: one character for one character, with the
dotless `ı` and the long `ſ` left alone.
-/

namespace Convers

/-- A string of the program, as the list of its characters. -/
abbrev Text := List Char

/-- Texts are compared character by character, in every test whether one is on a list. -/
instance : LawfulBEq Text := inferInstance

/-- A check of every character of a text goes through the text; the library's
instance for a quantifier over characters would go through all of Unicode. -/
instance (priority := high) decidableForallText (t : Text) (p : Char → Prop) [DecidablePred p] :
    Decidable (∀ c ∈ t, p c) := List.decidableBAll p t

/-- The exceptions of the modelled code, and the model's own failure of a loop that
runs out of its step budget. -/
inductive Fault where
  /-- `FormatException`. -/
  | format
  /-- `ArgumentException`. -/
  | argument
  /-- `ArgumentOutOfRangeException`. -/
  | argumentOutOfRange
  /-- `IndexOutOfRangeException`. -/
  | indexOutOfRange
  /-- Not of the code: the step budget of a modelled loop is used up. -/
  | outOfSteps
  deriving DecidableEq

/-- Carriage return, one of the two line terminators. -/
abbrev cr : Char := '\r'

/-- Line feed, the other line terminator. -/
abbrev lf : Char := '\n'

/-! ### Character classes -/

/-- `char.IsWhiteSpace`: the Unicode separators, and the blanks among the
controls. -/
def isWhiteSpace (c : Char) : Bool :=
  let n := c.toNat
  n = 0x20 || (9 ≤ n && n ≤ 13) || n = 0x85 || n = 0xA0 || n = 0x1680 ||
    (0x2000 ≤ n && n ≤ 0x200A) || n = 0x2028 || n = 0x2029 || n = 0x202F ||
    n = 0x205F || n = 0x3000

/-- `char.IsControl`: the C0 and C1 controls. -/
def isControl (c : Char) : Bool :=
  c.toNat ≤ 0x1F || (0x7F ≤ c.toNat && c.toNat ≤ 0x9F)

/-- A line terminator: CR or LF. -/
def isTerminator (c : Char) : Bool := c = cr || c = lf

/-! ### Upper-casing -/

/-- A run of lower-case letters with a common distance to their capitals: the
characters `first`, `first + step`, …, `last`, of which `first` has the capital
`target`. -/
structure CaseRange where
  /-- The first code of the run. -/
  first : ℕ
  /-- The last code of the run. -/
  last : ℕ
  /-- The distance between two codes of the run: `1` or `2`. -/
  step : ℕ
  /-- The capital of `first`. -/
  target : ℕ

namespace CaseRange

/-- Whether a code belongs to the run. -/
def covers (r : CaseRange) (n : ℕ) : Bool :=
  r.first ≤ n && n ≤ r.last && (n - r.first) % r.step = 0

/-- The capital of a code of the run. -/
def capital (r : CaseRange) (n : ℕ) : ℕ := r.target + (n - r.first)

/-- Whether no capital of the run `r` belongs to the run `s`: the two intervals
do not meet, or they meet out of step, or `r` is a single letter. -/
def apart (r s : CaseRange) : Bool :=
  r.capital r.last < s.first || s.last < r.target ||
    (r.step = 2 && s.step = 2 && (r.target + s.first) % 2 = 1) ||
    (r.first = r.last && !s.covers r.target)

/-- Whether every capital of the run is a character, and none is a blank or a
control. -/
def graphic (r : CaseRange) : Bool :=
  0x20 < r.first && (r.last < 0x7F || 0xA0 < r.first) && 0x20 < r.target &&
    (r.capital r.last < 0x7F || 0xA0 < r.target) &&
    (r.capital r.last < 0xD800 || (0xDFFF < r.target && r.capital r.last < 0x110000))

/-- Whether a code is in the run or is a capital of it, up to the step. -/
def spans (r : CaseRange) (n : ℕ) : Bool :=
  (r.first ≤ n && n ≤ r.last) || (r.target ≤ n && n ≤ r.capital r.last)

end CaseRange

/-- The simple upper-case mapping, as runs in increasing order. -/
def simpleCaseRanges : List CaseRange :=
  [⟨97, 122, 1, 65⟩, ⟨181, 181, 1, 924⟩, ⟨224, 246, 1, 192⟩, ⟨248, 254, 1, 216⟩,
   ⟨255, 255, 1, 376⟩, ⟨257, 303, 2, 256⟩, ⟨307, 311, 2, 306⟩, ⟨314, 328, 2, 313⟩,
   ⟨331, 375, 2, 330⟩, ⟨378, 382, 2, 377⟩, ⟨384, 384, 1, 579⟩, ⟨387, 389, 2, 386⟩,
   ⟨392, 392, 1, 391⟩, ⟨396, 396, 1, 395⟩, ⟨402, 402, 1, 401⟩, ⟨405, 405, 1, 502⟩,
   ⟨409, 409, 1, 408⟩, ⟨410, 410, 1, 573⟩, ⟨414, 414, 1, 544⟩, ⟨417, 421, 2, 416⟩,
   ⟨424, 424, 1, 423⟩, ⟨429, 429, 1, 428⟩, ⟨432, 432, 1, 431⟩, ⟨436, 438, 2, 435⟩,
   ⟨441, 441, 1, 440⟩, ⟨445, 445, 1, 444⟩, ⟨447, 447, 1, 503⟩, ⟨453, 453, 1, 452⟩,
   ⟨454, 454, 1, 452⟩, ⟨456, 456, 1, 455⟩, ⟨457, 457, 1, 455⟩, ⟨459, 459, 1, 458⟩,
   ⟨460, 460, 1, 458⟩, ⟨462, 476, 2, 461⟩, ⟨477, 477, 1, 398⟩, ⟨479, 495, 2, 478⟩,
   ⟨498, 498, 1, 497⟩, ⟨499, 499, 1, 497⟩, ⟨501, 501, 1, 500⟩, ⟨505, 543, 2, 504⟩,
   ⟨547, 563, 2, 546⟩, ⟨572, 572, 1, 571⟩, ⟨575, 576, 1, 11390⟩, ⟨578, 578, 1, 577⟩,
   ⟨583, 591, 2, 582⟩, ⟨592, 592, 1, 11375⟩, ⟨593, 593, 1, 11373⟩, ⟨594, 594, 1, 11376⟩,
   ⟨595, 595, 1, 385⟩, ⟨596, 596, 1, 390⟩, ⟨598, 599, 1, 393⟩, ⟨601, 601, 1, 399⟩,
   ⟨603, 603, 1, 400⟩, ⟨604, 604, 1, 42923⟩, ⟨608, 608, 1, 403⟩, ⟨609, 609, 1, 42924⟩,
   ⟨611, 611, 1, 404⟩, ⟨613, 613, 1, 42893⟩, ⟨614, 614, 1, 42922⟩, ⟨616, 616, 1, 407⟩,
   ⟨617, 617, 1, 406⟩, ⟨618, 618, 1, 42926⟩, ⟨619, 619, 1, 11362⟩, ⟨620, 620, 1, 42925⟩,
   ⟨623, 623, 1, 412⟩, ⟨625, 625, 1, 11374⟩, ⟨626, 626, 1, 413⟩, ⟨629, 629, 1, 415⟩,
   ⟨637, 637, 1, 11364⟩, ⟨640, 640, 1, 422⟩, ⟨642, 642, 1, 42949⟩, ⟨643, 643, 1, 425⟩,
   ⟨647, 647, 1, 42929⟩, ⟨648, 648, 1, 430⟩, ⟨649, 649, 1, 580⟩, ⟨650, 651, 1, 433⟩,
   ⟨652, 652, 1, 581⟩, ⟨658, 658, 1, 439⟩, ⟨669, 669, 1, 42930⟩, ⟨670, 670, 1, 42928⟩,
   ⟨837, 837, 1, 921⟩, ⟨881, 883, 2, 880⟩, ⟨887, 887, 1, 886⟩, ⟨891, 893, 1, 1021⟩,
   ⟨940, 940, 1, 902⟩, ⟨941, 943, 1, 904⟩, ⟨945, 961, 1, 913⟩, ⟨962, 962, 1, 931⟩,
   ⟨963, 971, 1, 931⟩, ⟨972, 972, 1, 908⟩, ⟨973, 974, 1, 910⟩, ⟨976, 976, 1, 914⟩,
   ⟨977, 977, 1, 920⟩, ⟨981, 981, 1, 934⟩, ⟨982, 982, 1, 928⟩, ⟨983, 983, 1, 975⟩,
   ⟨985, 1007, 2, 984⟩, ⟨1008, 1008, 1, 922⟩, ⟨1009, 1009, 1, 929⟩, ⟨1010, 1010, 1, 1017⟩,
   ⟨1011, 1011, 1, 895⟩, ⟨1013, 1013, 1, 917⟩, ⟨1016, 1016, 1, 1015⟩, ⟨1019, 1019, 1, 1018⟩,
   ⟨1072, 1103, 1, 1040⟩, ⟨1104, 1119, 1, 1024⟩, ⟨1121, 1153, 2, 1120⟩, ⟨1163, 1215, 2, 1162⟩,
   ⟨1218, 1230, 2, 1217⟩, ⟨1231, 1231, 1, 1216⟩, ⟨1233, 1327, 2, 1232⟩, ⟨1377, 1414, 1, 1329⟩,
   ⟨4304, 4346, 1, 7312⟩, ⟨4349, 4351, 1, 7357⟩, ⟨5112, 5117, 1, 5104⟩, ⟨7296, 7296, 1, 1042⟩,
   ⟨7297, 7297, 1, 1044⟩, ⟨7298, 7298, 1, 1054⟩, ⟨7299, 7300, 1, 1057⟩, ⟨7301, 7301, 1, 1058⟩,
   ⟨7302, 7302, 1, 1066⟩, ⟨7303, 7303, 1, 1122⟩, ⟨7304, 7304, 1, 42570⟩, ⟨7545, 7545, 1, 42877⟩,
   ⟨7549, 7549, 1, 11363⟩, ⟨7566, 7566, 1, 42950⟩, ⟨7681, 7829, 2, 7680⟩, ⟨7835, 7835, 1, 7776⟩,
   ⟨7841, 7935, 2, 7840⟩, ⟨7936, 7943, 1, 7944⟩, ⟨7952, 7957, 1, 7960⟩, ⟨7968, 7975, 1, 7976⟩,
   ⟨7984, 7991, 1, 7992⟩, ⟨8000, 8005, 1, 8008⟩, ⟨8017, 8023, 2, 8025⟩, ⟨8032, 8039, 1, 8040⟩,
   ⟨8048, 8049, 1, 8122⟩, ⟨8050, 8053, 1, 8136⟩, ⟨8054, 8055, 1, 8154⟩, ⟨8056, 8057, 1, 8184⟩,
   ⟨8058, 8059, 1, 8170⟩, ⟨8060, 8061, 1, 8186⟩, ⟨8064, 8071, 1, 8072⟩, ⟨8080, 8087, 1, 8088⟩,
   ⟨8096, 8103, 1, 8104⟩, ⟨8112, 8113, 1, 8120⟩, ⟨8115, 8115, 1, 8124⟩, ⟨8126, 8126, 1, 921⟩,
   ⟨8131, 8131, 1, 8140⟩, ⟨8144, 8145, 1, 8152⟩, ⟨8160, 8161, 1, 8168⟩, ⟨8165, 8165, 1, 8172⟩,
   ⟨8179, 8179, 1, 8188⟩, ⟨8526, 8526, 1, 8498⟩, ⟨8560, 8575, 1, 8544⟩, ⟨8580, 8580, 1, 8579⟩,
   ⟨9424, 9449, 1, 9398⟩, ⟨11312, 11359, 1, 11264⟩, ⟨11361, 11361, 1, 11360⟩,
   ⟨11365, 11365, 1, 570⟩, ⟨11366, 11366, 1, 574⟩, ⟨11368, 11372, 2, 11367⟩,
   ⟨11379, 11379, 1, 11378⟩, ⟨11382, 11382, 1, 11381⟩, ⟨11393, 11491, 2, 11392⟩,
   ⟨11500, 11502, 2, 11499⟩, ⟨11507, 11507, 1, 11506⟩, ⟨11520, 11557, 1, 4256⟩,
   ⟨11559, 11559, 1, 4295⟩, ⟨11565, 11565, 1, 4301⟩, ⟨42561, 42605, 2, 42560⟩,
   ⟨42625, 42651, 2, 42624⟩, ⟨42787, 42799, 2, 42786⟩, ⟨42803, 42863, 2, 42802⟩,
   ⟨42874, 42876, 2, 42873⟩, ⟨42879, 42887, 2, 42878⟩, ⟨42892, 42892, 1, 42891⟩,
   ⟨42897, 42899, 2, 42896⟩, ⟨42900, 42900, 1, 42948⟩, ⟨42903, 42921, 2, 42902⟩,
   ⟨42933, 42947, 2, 42932⟩, ⟨42952, 42954, 2, 42951⟩, ⟨42961, 42961, 1, 42960⟩,
   ⟨42967, 42969, 2, 42966⟩, ⟨42998, 42998, 1, 42997⟩, ⟨43859, 43859, 1, 42931⟩,
   ⟨43888, 43967, 1, 5024⟩, ⟨65345, 65370, 1, 65313⟩, ⟨66600, 66639, 1, 66560⟩,
   ⟨66776, 66811, 1, 66736⟩, ⟨66967, 66977, 1, 66928⟩, ⟨66979, 66993, 1, 66940⟩,
   ⟨66995, 67001, 1, 66956⟩, ⟨67003, 67004, 1, 66964⟩, ⟨68800, 68850, 1, 68736⟩,
   ⟨71872, 71903, 1, 71840⟩, ⟨93792, 93823, 1, 93760⟩, ⟨125218, 125251, 1, 125184⟩]

/-- The capital of one character (`char.ToUpperInvariant`). -/
def toUpperChar (c : Char) : Char :=
  match simpleCaseRanges.find? (·.covers c.toNat) with
  | some r => Char.ofNat (r.capital c.toNat)
  | none => c

/-- `string.ToUpperInvariant`. -/
def toUpperInvariant (t : Text) : Text := t.map toUpperChar

/-- The blanks above Latin-1. -/
def wideBlanks : List ℕ :=
  [0x1680, 0x2000, 0x2001, 0x2002, 0x2003, 0x2004, 0x2005, 0x2006, 0x2007, 0x2008, 0x2009,
    0x200A, 0x2028, 0x2029, 0x202F, 0x205F, 0x3000]

/-- The checks on the table, evaluated once: its capitals are graphic
characters, it spans no blank, and no capital of a run is in a run. -/
theorem simpleCaseRanges_sound :
    simpleCaseRanges.all (fun r => r.graphic && wideBlanks.all (fun b => !r.spans b) &&
      simpleCaseRanges.all (fun s => r.apart s)) = true := by
  decide +kernel

/-- A character is left alone, or it is in a run and its capital is graphic and
in no run. -/
theorem toUpperChar_cases (c : Char) :
    toUpperChar c = c ∨
      ∃ r ∈ simpleCaseRanges, r.covers c.toNat = true ∧
        toUpperChar c = Char.ofNat (r.capital c.toNat) := by
  rcases hfind : simpleCaseRanges.find? (·.covers c.toNat) with _ | r
  · exact Or.inl (by simp only [toUpperChar, hfind])
  · refine Or.inr ⟨r, List.mem_of_find?_eq_some hfind, (List.find?_some hfind :), ?_⟩
    simp only [toUpperChar, hfind]

section Runs

variable {r : CaseRange} {n : ℕ}

theorem CaseRange.covers_iff :
    r.covers n = true ↔ r.first ≤ n ∧ n ≤ r.last ∧ (n - r.first) % r.step = 0 := by
  simp [CaseRange.covers, and_assoc]

/-- What the table's checks say of one of its runs. -/
theorem CaseRange.sound (hr : r ∈ simpleCaseRanges) :
    r.graphic = true ∧ (∀ b ∈ wideBlanks, r.spans b = false) ∧
      ∀ s ∈ simpleCaseRanges, r.apart s = true := by
  have h := List.all_eq_true.mp simpleCaseRanges_sound r hr
  simp only [Bool.and_eq_true, List.all_eq_true, Bool.not_eq_true'] at h
  exact ⟨h.1.1, h.1.2, h.2⟩

/-- The bounds the table's checks give on a letter and on its capital. -/
theorem CaseRange.bounds (hr : r ∈ simpleCaseRanges) (hn : r.covers n = true) :
    0x20 < n ∧ (n < 0x7F ∨ 0xA0 < n) ∧ 0x20 < r.capital n ∧
      (r.capital n < 0x7F ∨ 0xA0 < r.capital n) ∧ (r.capital n).isValidChar := by
  obtain ⟨hg, -, -⟩ := CaseRange.sound hr
  obtain ⟨h1, h2, -⟩ := CaseRange.covers_iff.mp hn
  simp only [CaseRange.graphic, Bool.and_eq_true, Bool.or_eq_true, decide_eq_true_eq] at hg
  simp only [CaseRange.capital] at hg
  simp only [CaseRange.capital, Nat.isValidChar]
  omega

/-- The capital of a letter is in no run. -/
theorem CaseRange.not_covers_capital {s : CaseRange} (hr : r ∈ simpleCaseRanges)
    (hs : s ∈ simpleCaseRanges) (hn : r.covers n = true) :
    s.covers (r.capital n) = false := by
  obtain ⟨-, -, hapart⟩ := CaseRange.sound hr
  obtain ⟨h1, h2, h3⟩ := CaseRange.covers_iff.mp hn
  have h := hapart s hs
  rw [Bool.eq_false_iff]
  intro hc
  obtain ⟨h4, h5, h6⟩ := CaseRange.covers_iff.mp hc
  simp only [CaseRange.apart, Bool.or_eq_true, Bool.and_eq_true, decide_eq_true_eq,
    Bool.not_eq_true'] at h
  simp only [CaseRange.capital] at h h4 h5 h6
  rcases h with ((h | h) | ⟨⟨hr2, hs2⟩, h⟩) | ⟨h, hcov⟩
  · omega
  · omega
  · rw [hr2] at h3
    rw [hs2] at h6
    omega
  · have hn' : n = r.first := by omega
    rw [hn', Nat.sub_self, Nat.add_zero] at h4 h5 h6
    rw [CaseRange.covers_iff.mpr ⟨h4, h5, h6⟩] at hcov
    exact Bool.noConfusion hcov

end Runs

/-- **Upper-casing a character is idempotent**: a capital is in no run. -/
@[simp] theorem toUpperChar_toUpperChar (c : Char) :
    toUpperChar (toUpperChar c) = toUpperChar c := by
  rcases toUpperChar_cases c with h | ⟨r, hr, hcov, h⟩
  · rw [h, h]
  · rw [h]
    obtain ⟨-, -, -, -, hvalid⟩ := CaseRange.bounds hr hcov
    rcases toUpperChar_cases (Char.ofNat (r.capital c.toNat)) with h' | ⟨s, hs, hcov', -⟩
    · exact h'
    · rw [Char.toNat_ofNat, if_pos hvalid, CaseRange.not_covers_capital hr hs hcov] at hcov'
      exact Bool.noConfusion hcov'

/-- Upper-casing keeps blanks blank and everything else not. -/
@[simp] theorem isWhiteSpace_toUpperChar (c : Char) :
    isWhiteSpace (toUpperChar c) = isWhiteSpace c := by
  rcases toUpperChar_cases c with h | ⟨r, hr, hcov, h⟩
  · rw [h]
  · obtain ⟨-, hblank, -⟩ := CaseRange.sound hr
    obtain ⟨h1, h2, -⟩ := CaseRange.covers_iff.mp hcov
    obtain ⟨b1, b2, b3, b4, hvalid⟩ := CaseRange.bounds hr hcov
    have hout : ∀ n, (r.first ≤ n ∧ n ≤ r.last) ∨ (r.target ≤ n ∧ n ≤ r.capital r.last) →
        n ∉ wideBlanks := by
      intro n hn hmem
      have := hblank n hmem
      simp only [CaseRange.spans, Bool.or_eq_false_iff, Bool.and_eq_false_iff,
        decide_eq_false_iff_not] at this
      omega
    have hw : ∀ d : Char, 0x20 < d.toNat → (d.toNat < 0x7F ∨ 0xA0 < d.toNat) →
        d.toNat ∉ wideBlanks → isWhiteSpace d = false := by
      intro d g1 g2 g3
      simp only [wideBlanks, List.mem_cons, List.not_mem_nil, or_false] at g3
      simp only [isWhiteSpace, Bool.or_eq_false_iff, Bool.and_eq_false_iff,
        decide_eq_false_iff_not]
      omega
    have hto : (Char.ofNat (r.capital c.toNat)).toNat = r.capital c.toNat := by
      rw [Char.toNat_ofNat, if_pos hvalid]
    rw [h, hw c b1 b2 (hout _ (Or.inl ⟨h1, h2⟩)), hw _ (by rwa [hto]) (by rwa [hto])]
    rw [hto]
    refine hout _ (Or.inr ?_)
    simp only [CaseRange.capital]
    omega

/-- Upper-casing keeps controls controls and everything else not. -/
@[simp] theorem isControl_toUpperChar (c : Char) :
    isControl (toUpperChar c) = isControl c := by
  rcases toUpperChar_cases c with h | ⟨r, hr, hcov, h⟩
  · rw [h]
  · obtain ⟨b1, b2, b3, b4, hvalid⟩ := CaseRange.bounds hr hcov
    have hto : (Char.ofNat (r.capital c.toNat)).toNat = r.capital c.toNat := by
      rw [Char.toNat_ofNat, if_pos hvalid]
    rw [h]
    simp only [isControl, hto]
    rw [Bool.eq_iff_iff]
    simp only [Bool.or_eq_true, Bool.and_eq_true, decide_eq_true_eq]
    omega

/-- Upper-casing neither makes nor removes a line terminator: a terminator is a
control, and the letters of the runs are none. -/
@[simp] theorem isTerminator_toUpperChar (c : Char) :
    isTerminator (toUpperChar c) = isTerminator c := by
  rcases toUpperChar_cases c with h | ⟨r, hr, hcov, h⟩
  · rw [h]
  · have hctl : ∀ d : Char, isControl d = false → isTerminator d = false := by
      intro d hd
      rw [Bool.eq_false_iff]
      intro ht
      rcases (by simpa [isTerminator] using ht : d = cr ∨ d = lf) with rfl | rfl <;>
        exact absurd hd (by decide)
    obtain ⟨b1, b2, -⟩ := CaseRange.bounds hr hcov
    have hc : isControl c = false := by
      simp only [isControl, Bool.or_eq_false_iff, Bool.and_eq_false_iff,
        decide_eq_false_iff_not]
      omega
    rw [hctl c hc, hctl _ ((isControl_toUpperChar c).trans hc)]

/-- **Upper-casing is idempotent.** A callsign that has been brought into its canonical form stays
in it. -/
@[simp] theorem toUpperInvariant_toUpperInvariant (t : Text) :
    toUpperInvariant (toUpperInvariant t) = toUpperInvariant t := by
  simp [toUpperInvariant]

/-- Below the first small letter nothing changes. -/
theorem toUpperInvariant_eq_self {t : Text} (h : ∀ c ∈ t, c.toNat < 0x61) :
    toUpperInvariant t = t := by
  have hfirst : simpleCaseRanges.all (fun r => 0x61 ≤ r.first) = true := by decide
  refine (List.map_congr_left fun c hc => ?_).trans (List.map_id t)
  rcases toUpperChar_cases c with heq | ⟨r, hr, hcov, -⟩
  · exact heq
  · have hle : 0x61 ≤ r.first := by simpa using List.all_eq_true.mp hfirst r hr
    obtain ⟨hn, -, -⟩ := CaseRange.covers_iff.mp hcov
    exact absurd (h c hc) (by omega)

/-! ### Trimming -/

/-- `string.Trim`: the blanks at both ends go. -/
def trim (t : Text) : Text := (t.dropWhile isWhiteSpace).rdropWhile isWhiteSpace

/-- `string.TrimStart`. -/
def trimStart (t : Text) : Text := t.dropWhile isWhiteSpace

/-- `string.IsNullOrWhiteSpace`. -/
def isNullOrWhiteSpace (t : Text) : Bool := t.all isWhiteSpace

/-- What is left of a trimmed string starts with no blank. -/
theorem dropWhile_trim (t : Text) : (trim t).dropWhile isWhiteSpace = trim t := by
  rcases h : trim t with _ | ⟨c, s⟩
  · rfl
  · have hpre : (c :: s) <+: t.dropWhile isWhiteSpace := h ▸ List.rdropWhile_prefix _ _
    obtain ⟨rest, hrest⟩ := hpre
    have hc : isWhiteSpace c = false := by
      have hd : t.dropWhile isWhiteSpace ≠ [] := by rw [← hrest]; simp
      have := List.head_dropWhile_not isWhiteSpace hd
      simpa [← hrest] using this
    rw [List.dropWhile_cons_of_neg (by simp [hc])]

/-- **Trimming is idempotent.** -/
@[simp] theorem trim_trim (t : Text) : trim (trim t) = trim t := by
  rw [trim, dropWhile_trim]
  exact List.rdropWhile_idempotent _ _

/-- A string without blanks is its own trimming. -/
theorem trim_eq_self {t : Text} (h : ∀ c ∈ t, isWhiteSpace c = false) : trim t = t := by
  have hstart : t.dropWhile isWhiteSpace = t := by
    rcases t with _ | ⟨c, s⟩
    · rfl
    · exact List.dropWhile_cons_of_neg (by simp [h c (by simp)])
  rw [trim, hstart, List.rdropWhile_eq_self_iff]
  intro hne
  simp [h _ (List.getLast_mem hne)]

/-- Upper-casing and trimming commute, blanks being kept. -/
theorem trim_toUpperInvariant (t : Text) :
    trim (toUpperInvariant t) = toUpperInvariant (trim t) := by
  have hcomp : (isWhiteSpace ∘ toUpperChar) = isWhiteSpace :=
    funext fun c => isWhiteSpace_toUpperChar c
  simp only [trim, toUpperInvariant, List.rdropWhile, List.dropWhile_map, hcomp,
    ← List.map_reverse]

/-! ### Numbers -/

/-- `ToString(CultureInfo.InvariantCulture)` of an integer. -/
def decimal (n : ℤ) : Text :=
  if n < 0 then '-' :: Nat.toDigits 10 n.natAbs else Nat.toDigits 10 n.natAbs

/-- The last digit comes off the end. -/
theorem toDigits_ten (n : ℕ) :
    Nat.toDigits 10 n = (if n < 10 then [] else Nat.toDigits 10 (n / 10)) ++
      [Nat.digitChar (n % 10)] := by
  rw [Nat.toDigits_eq_if (by norm_num)]
  split
  · rename_i h
    rw [Nat.mod_eq_of_lt h, List.nil_append]
  · rfl

/-- Every character of a number in base ten is a digit. -/
theorem mem_toDigits_ten {n : ℕ} {c : Char} (h : c ∈ Nat.toDigits 10 n) :
    ∃ d < 10, c = Nat.digitChar d := by
  induction n using Nat.strong_induction_on with
  | _ n ih =>
    rw [toDigits_ten] at h
    rcases List.mem_append.mp h with h | h
    · split at h
      · simp at h
      · exact ih (n / 10) (by omega) h
    · exact ⟨n % 10, Nat.mod_lt _ (by norm_num), by simpa using h⟩

theorem decimal_ne_nil (n : ℤ) : decimal n ≠ [] := by
  rw [decimal]
  split
  · simp
  · exact Nat.toDigits_ne_nil

/-- **Two integers are written alike only if they are equal.** Names that are made from numbers are
told apart. -/
theorem decimal_injective : Function.Injective decimal := by
  have hnat : ∀ m n : ℕ, Nat.toDigits 10 m = Nat.toDigits 10 n → m = n := by
    intro m n h
    refine Nat.repr_injective (String.toList_inj.mp ?_)
    rw [Nat.toList_repr, Nat.toList_repr, h]
  -- a sign is no digit
  have hsign : ∀ m n : ℕ, '-' :: Nat.toDigits 10 m ≠ Nat.toDigits 10 n := by
    intro m n h
    have hmem : '-' ∈ Nat.toDigits 10 n := h ▸ List.mem_cons_self
    obtain ⟨d, hd, hdigit⟩ := mem_toDigits_ten hmem
    interval_cases d <;> exact absurd hdigit (by decide)
  intro m n h
  rw [decimal, decimal] at h
  split at h
  · split at h
    · have := hnat _ _ (List.cons_inj_right _ |>.mp h)
      omega
    · exact absurd h (hsign _ _)
  · split at h
    · exact absurd h.symm (hsign _ _)
    · have := hnat _ _ h
      omega

/-- Two natural numbers are written alike only if they are equal. -/
theorem decimal_natCast_injective : Function.Injective fun n : ℕ => decimal n := fun _ _ h =>
  Int.natCast_inj.mp (decimal_injective h)

/-- The characters of a number are its sign and ASCII digits. -/
theorem mem_decimal {n : ℤ} {c : Char} (h : c ∈ decimal n) :
    c = '-' ∨ ∃ d < 10, c = Nat.digitChar d := by
  rw [decimal] at h
  split at h
  · rcases List.mem_cons.mp h with rfl | h
    · exact Or.inl rfl
    · exact Or.inr (mem_toDigits_ten h)
  · exact Or.inr (mem_toDigits_ten h)

/-- **No character of a number is a blank.** So a number stays one word of the line it is put into.
-/
theorem isWhiteSpace_of_mem_decimal {n : ℤ} {c : Char} (h : c ∈ decimal n) :
    isWhiteSpace c = false := by
  rcases mem_decimal h with rfl | ⟨d, hd, rfl⟩
  · decide
  · interval_cases d <;> decide

end Convers
