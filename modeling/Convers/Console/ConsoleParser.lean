import Convers.Console.Vocabulary
import Convers.Host.Sessions
import Convers.Protocol.Numerals

/-!
# What a line of a user means

A line of a user is read on one of two surfaces, and what it means is one of the same intents
(`Convers.ConsoleParser.parse`). An intent that is read is well formed, and any well-formed intent
can be typed (`Convers.ConsoleParser.exists_parse_iff`). Most lines that can be typed for it are the
same on both surfaces (`Convers.ConsoleParser.parse_command`): a slash, a verb and what is given
with it. Only what is said is not.
-/

namespace Convers

/-- `string.TrimEnd`. -/
def trimEnd (t : Text) : Text := t.rdropWhile isWhiteSpace

/-- A text without blanks at its ends. -/
def IsTrimmed (t : Text) : Prop := trim t = t

/-- `int.TryParse` with `NumberStyles.None`: digits, and no more than the range has. Null
characters at the end do not matter. -/
def tryParseInt32 (t : Text) : Option Int32 :=
  let digits := t.takeWhile isAsciiDigit
  let rest := t.dropWhile isAsciiDigit
  if digits ≠ [] ∧ rest.all (·.toNat = 0) ∧ digitsValue digits < 2 ^ 31 then
    some (Int32.ofNat (digitsValue digits))
  else none

namespace ConsoleParser

/-- `SplitFirstWord`. -/
def splitFirstWord (text : Text) : Text × Text :=
  let s := trimStart text
  (s.takeWhile (!isWhiteSpace ·), (s.dropWhile (!isWhiteSpace ·)).tail)

/-- `StripChannelHash`. -/
def stripChannelHash (token : Text) : Text :=
  if token.head? = some '#' then token.tail else token

/-- `TryParseChannel`. -/
def tryParseChannel (token : Text) : Option Int32 :=
  (tryParseInt32 (stripChannelHash token)).filter ChannelNumber.isValid

/-- `NormaliseTopic`. -/
def normaliseTopic (text : Text) : Text := if trim text = ['@'] then [] else text

/-- `ParseName`. -/
def parseName (rest : Text) : ConsoleIntent :=
  let after := trim (splitFirstWord rest).2
  if after = [] then .join none
  else .join (tryParseChannel (splitFirstWord after).1)

/-- `ParseJoin`. -/
def parseJoin (rest raw : Text) : ConsoleIntent :=
  if rest = [] then .join none
  else match tryParseChannel (splitFirstWord rest).1 with
    | some channel => .join (some channel)
    | none => .unknown raw

/-- `ParseMode`. -/
def parseMode (rest : Text) : ConsoleIntent :=
  let rest := trim rest
  if rest = [] then .mode none []
  else match tryParseChannel (splitFirstWord rest).1 with
    | some channel => .mode (some channel) (trim (splitFirstWord rest).2)
    | none => .mode none rest

/-- `ParseInvite`. -/
def parseInvite (rest raw : Text) : ConsoleIntent :=
  if rest = [] then .unknown raw
  else
    let user := Callsigns.normalize (stripChannelHash (splitFirstWord rest).1)
    let after := trim (splitFirstWord rest).2
    if after = [] then .invite user none
    else match tryParseChannel (splitFirstWord after).1 with
      | some channel => .invite user (some channel)
      | none => .unknown raw

/-- The private message of `BuildIntent`. -/
def parseMsg (rest raw : Text) : ConsoleIntent :=
  let (toUser, text) := splitFirstWord rest
  if toUser = [] ∨ trim text = [] then .unknown raw
  else .msg (Callsigns.normalize (stripChannelHash toUser)) (trim text)

/-- `BuildIntent`. -/
def buildIntent (verb rest raw : Text) : ConsoleIntent :=
  let rest := trim rest
  if verb = "say".toList then .say rest
  else if verb = "join".toList then parseJoin rest raw
  else if verb = "name".toList then parseName rest
  else if verb = "msg".toList then parseMsg rest raw
  else if verb = "topic".toList then .topic (normaliseTopic rest)
  else if verb = "personal".toList then .personal (normaliseTopic rest)
  else if verb = "away".toList then .away rest
  else if verb = "mode".toList then parseMode rest
  else if verb = "oper".toList then .oper (trim rest)
  else if verb = "who".toList then .who rest
  else if verb = "invite".toList then parseInvite rest raw
  else if verb = "leave".toList then .leave rest
  else if verb = "quit".toList then .quit rest
  else if verb = "help".toList then .help rest
  else .unknown raw

/-- `ParsePlain`. -/
def parsePlain (line : Text) : ConsoleIntent :=
  let trimmed := trimStart line
  if trimmed = [] then .empty
  else
    -- a slash in front is forgiven
    let hadSlash := trimmed.head? = some '/'
    let body := if hadSlash then trimStart trimmed.tail else trimmed
    if body = [] then .say (trimStart line)
    else
      let (head, rest) := splitFirstWord body
      match ConsoleVerbs.resolve head with
      | none => .say (if hadSlash then body else trimmed)
      | some verb => buildIntent verb rest line

/-- `ParseClassic`. -/
def parseClassic (line : Text) : ConsoleIntent :=
  if line = [] ∨ trimEnd line = [] then .empty
  else if line.head? ≠ some '/' then .say line
  else
    let body := line.tail
    if body = [] then .unknown line
    else
      let (head, rest) := splitFirstWord body
      match ClassicCommands.resolve head with
      | none => .unknown line
      | some verb => buildIntent verb rest line

/-- `Parse` of a session, by the surface it has. -/
def parse (isClassic : Bool) (line : Text) : ConsoleIntent :=
  if isClassic then parseClassic line else parsePlain line

end ConsoleParser

/-! ### Well-formed intents -/

namespace ConsoleIntent

/-- Whom a message or an invitation is for: in canonical form, and without blanks. -/
def IsAddressee (user : Text) : Prop :=
  Callsigns.normalize user = user ∧ ∀ c ∈ user, isWhiteSpace c = false

/-- What can be said. On the classic surface that is no command, and no blank line. On the plain one
it is trimmed, unless its first word is no verb: then blanks at the end stay. -/
def IsSayable (isClassic : Bool) (text : Text) : Prop :=
  if isClassic then trimEnd text ≠ [] ∧ text.head? ≠ some '/'
  else IsTrimmed text ∨ trimStart text = text ∧
    ConsoleVerbs.resolve (ConsoleParser.splitFirstWord text).1 = none

/-- **A well-formed intent.** -/
def WellFormed (isClassic : Bool) : ConsoleIntent → Prop
  | .empty | .unknown _ => True
  | .say text => IsSayable isClassic text
  | .join channel => ∀ c ∈ channel, ChannelNumber.isValid c = true
  | .msg toUser text => IsAddressee toUser ∧ IsTrimmed text ∧ text ≠ []
  | .topic text | .personal text => IsTrimmed text ∧ text ≠ ['@']
  | .who text | .away text | .oper text | .leave text | .quit text | .help text => IsTrimmed text
  | .invite user channel => IsAddressee user ∧ ∀ c ∈ channel, ChannelNumber.isValid c = true
  | .mode channel options => IsTrimmed options ∧ (∀ c ∈ channel, ChannelNumber.isValid c = true) ∧
      (channel = none →
        ConsoleParser.tryParseChannel (ConsoleParser.splitFirstWord options).1 = none)

end ConsoleIntent

open ConsoleIntent (IsAddressee IsSayable WellFormed)

/-! ### Blanks -/

section Blanks

variable {t w s : Text}

theorem isTrimmed_trim (t : Text) : IsTrimmed (trim t) := trim_trim t

theorem isTrimmed_nil : IsTrimmed [] := rfl

/-- A trimmed text ends in no blank. -/
theorem IsTrimmed.rdropWhile (h : IsTrimmed t) : t.rdropWhile isWhiteSpace = t := by
  have hstart := dropWhile_trim t
  rw [h] at hstart
  rw [IsTrimmed, trim, hstart] at h
  exact h

theorem IsTrimmed.trimStart (h : IsTrimmed t) : trimStart t = t := by
  have hstart := dropWhile_trim t
  rwa [h] at hstart

/-- A word starts with no blank, whatever comes after it. -/
theorem trimStart_append (hw : ∀ c ∈ w, isWhiteSpace c = false) (hne : w ≠ []) (s : Text) :
    trimStart (w ++ s) = w ++ s := by
  obtain ⟨c, w, rfl⟩ := List.exists_cons_of_ne_nil hne
  exact List.dropWhile_cons_of_neg (by simp [hw c List.mem_cons_self])

/-- What is left when nothing is there but blanks. -/
theorem trimStart_eq_nil_iff : trimStart t = [] ↔ ∀ c ∈ t, isWhiteSpace c = true :=
  List.dropWhile_eq_nil_iff

/-- What is trimmed at its start starts with no blank. -/
theorem trimStart_trimStart (t : Text) : trimStart (trimStart t) = trimStart t :=
  List.dropWhile_idempotent _ _

/-- A word and a trimmed text after a blank are trimmed, but for the blank when there is no
text. -/
theorem trim_word_blank (hw : ∀ c ∈ w, isWhiteSpace c = false) (hne : w ≠ []) (hs : IsTrimmed s) :
    trim (w ++ ' ' :: s) = if s = [] then w else w ++ ' ' :: s := by
  rw [trim, show (w ++ ' ' :: s).dropWhile isWhiteSpace = w ++ ' ' :: s from
    trimStart_append hw hne _]
  split
  · rename_i hnil
    subst hnil
    rw [List.rdropWhile_concat_pos _ _ _ (by decide)]
    rw [List.rdropWhile_eq_self_iff]
    intro h
    rw [hw _ (List.getLast_mem h)]
    exact Bool.false_ne_true
  · rename_i hcons
    have hlast := hs.rdropWhile
    rw [List.rdropWhile_eq_self_iff] at hlast ⊢
    intro h
    rw [List.getLast_append_of_ne_nil _ (List.cons_ne_nil _ _), List.getLast_cons hcons]
    exact hlast hcons

namespace ConsoleParser

/-- The first word has no blanks. -/
theorem isWhiteSpace_of_mem_splitFirstWord {c : Char} (h : c ∈ (splitFirstWord t).1) :
    isWhiteSpace c = false := by
  have := List.mem_takeWhile_imp h
  simpa using this

/-- The first word is a word that is followed by a blank. -/
theorem splitFirstWord_word_blank (hw : ∀ c ∈ w, isWhiteSpace c = false) (hne : w ≠ [])
    (s : Text) : splitFirstWord (w ++ ' ' :: s) = (w, s) := by
  have htake : ∀ c ∈ w, (!isWhiteSpace c) = true := fun c hc => by rw [hw c hc]; rfl
  rw [splitFirstWord, trimStart_append hw hne, List.takeWhile_append_of_pos htake,
    List.dropWhile_append_of_pos htake, List.takeWhile_cons_of_neg (by decide),
    List.dropWhile_cons_of_neg (by decide), List.append_nil]
  rfl

/-- A word alone is the first one. -/
theorem splitFirstWord_word (hw : ∀ c ∈ w, isWhiteSpace c = false) :
    splitFirstWord w = (w, []) := by
  have htake : ∀ c ∈ w, (!isWhiteSpace c) = true := fun c hc => by rw [hw c hc]; rfl
  have hstart : trimStart w = w := by
    rcases w with _ | ⟨c, w⟩
    · rfl
    · exact List.dropWhile_cons_of_neg (by simp [hw c List.mem_cons_self])
  rw [splitFirstWord, hstart, List.takeWhile_eq_self_iff.mpr htake,
    List.dropWhile_eq_nil_iff.mpr htake]
  rfl

/-- A word and a trimmed text come apart again. -/
theorem splitFirstWord_trim (hw : ∀ c ∈ w, isWhiteSpace c = false) (hne : w ≠ [])
    (hs : IsTrimmed s) : splitFirstWord (trim (w ++ ' ' :: s)) = (w, s) := by
  rw [trim_word_blank hw hne hs]
  split
  · rename_i hnil
    rw [hnil, splitFirstWord_word hw]
  · exact splitFirstWord_word_blank hw hne s

theorem trim_word_blank_ne_nil (hw : ∀ c ∈ w, isWhiteSpace c = false) (hne : w ≠ [])
    (hs : IsTrimmed s) : trim (w ++ ' ' :: s) ≠ [] := by
  rw [trim_word_blank hw hne hs]
  split
  · exact hne
  · exact List.append_ne_nil_of_left_ne_nil hne _

end ConsoleParser

end Blanks

/-! ### Channels and addressees -/

namespace ConsoleParser

open Nat (toDigits digitChar)

/-- The digits of a number write it. -/
theorem digitsValue_toDigits (n : ℕ) : digitsValue (toDigits 10 n) = n := by
  induction n using Nat.strong_induction_on with
  | _ n ih =>
    have hd : n % 10 < 10 := Nat.mod_lt _ (by norm_num)
    rw [toDigits_ten, digitsValue_concat, toNat_digitChar hd]
    split
    · rename_i h
      rw [show digitsValue [] = 0 from rfl, Nat.mod_eq_of_lt h, Nat.mul_zero, Nat.add_zero]
    · rw [ih (n / 10) (by omega)]
      omega

/-- A channel that is written out is read back. -/
theorem tryParseChannel_decimal {channel : Int32} (h : ChannelNumber.isValid channel = true) :
    tryParseChannel (decimal channel.toInt) = some channel := by
  obtain ⟨hlow, hhigh⟩ := Bool.and_eq_true_iff.mp h
  have hlow : 0 ≤ channel.toInt := Int32.le_iff_toInt_le.mp (of_decide_eq_true hlow)
  have hhigh : channel.toInt ≤ 32767 := Int32.le_iff_toInt_le.mp (of_decide_eq_true hhigh)
  have hdecimal : decimal channel.toInt = toDigits 10 channel.toInt.natAbs := by
    rw [decimal, if_neg (not_lt.mpr hlow)]
  have hdigits : ∀ c ∈ toDigits 10 channel.toInt.natAbs, isAsciiDigit c = true := fun c hc =>
    isAsciiDigit_of_mem_toDigits hc
  have hhash : stripChannelHash (toDigits 10 channel.toInt.natAbs) =
      toDigits 10 channel.toInt.natAbs := by
    obtain ⟨c, s, hcs, hc⟩ := toDigits_head channel.toInt.natAbs
    rw [stripChannelHash, hcs, List.head?_cons, if_neg]
    rintro ⟨⟩
    exact absurd hc (by decide)
  rw [tryParseChannel, hdecimal, hhash, tryParseInt32, List.takeWhile_eq_self_iff.mpr hdigits,
    List.dropWhile_eq_nil_iff.mpr hdigits, digitsValue_toDigits,
    if_pos ⟨Nat.toDigits_ne_nil, rfl, by omega⟩]
  have hchannel : Int32.ofNat channel.toInt.natAbs = channel := by
    rw [← Int32.toInt_inj, ← Int32.ofInt_eq_ofNat, Int.natAbs_of_nonneg hlow, Int32.ofInt_toInt]
  rw [hchannel, Option.filter_some, if_pos h]

/-- What is read is a channel. -/
theorem isValid_of_tryParseChannel {token : Text} {channel : Int32}
    (h : tryParseChannel token = some channel) : ChannelNumber.isValid channel = true :=
  (Option.filter_eq_some_iff.mp h).2

/-- A token without blanks is only upper-cased. -/
theorem normalize_of_forall {token : Text} (h : ∀ c ∈ token, isWhiteSpace c = false) :
    Callsigns.normalize token = toUpperInvariant token := by
  rw [Callsigns.normalize]
  split
  · rename_i hblank
    rcases token with _ | ⟨c, token⟩
    · rfl
    · rw [isNullOrWhiteSpace, List.all_cons, h c List.mem_cons_self] at hblank
      cases hblank
  · rw [trim_eq_self h]

/-- A token is an addressee, in canonical form. -/
theorem isAddressee_of_token {token : Text} (h : ∀ c ∈ token, isWhiteSpace c = false) :
    IsAddressee (Callsigns.normalize (stripChannelHash token)) := by
  have hstrip : ∀ c ∈ stripChannelHash token, isWhiteSpace c = false := by
    intro c hc
    rw [stripChannelHash] at hc
    split at hc
    · exact h c (List.mem_of_mem_tail hc)
    · exact h c hc
  refine ⟨Callsigns.normalize_normalize _, fun c hc => ?_⟩
  rw [normalize_of_forall hstrip] at hc
  obtain ⟨d, hd, rfl⟩ := List.mem_map.mp hc
  rw [isWhiteSpace_toUpperChar]
  exact hstrip d hd

/-! ### What is read is well formed -/

variable {isClassic : Bool}

/-- What cannot be told is said to be so with the line itself. -/
def Reads (isClassic : Bool) (line : Text) (intent : ConsoleIntent) : Prop :=
  intent.WellFormed isClassic ∧ ∀ raw, intent = .unknown raw → raw = line

theorem reads_unknown (line : Text) : Reads isClassic line (.unknown line) := by
  refine ⟨trivial, ?_⟩
  rintro raw ⟨⟩
  rfl

/-- An intent that is well formed, and told. -/
theorem reads_of_wellFormed {line : Text} {intent : ConsoleIntent}
    (h : intent.WellFormed isClassic) (hknown : ∀ raw, intent ≠ .unknown raw) :
    Reads isClassic line intent := ⟨h, fun raw hraw => absurd hraw (hknown raw)⟩

theorem reads_parseName (rest line : Text) : Reads isClassic line (parseName rest) := by
  rw [parseName]
  split
  · refine reads_of_wellFormed ?_ ?_
    · rintro c ⟨⟩
    · rintro raw ⟨⟩
  · refine reads_of_wellFormed (fun c hc => isValid_of_tryParseChannel hc) ?_
    rintro raw ⟨⟩

theorem reads_parseJoin (rest line : Text) : Reads isClassic line (parseJoin rest line) := by
  rw [parseJoin]
  split
  · refine reads_of_wellFormed ?_ ?_
    · rintro c ⟨⟩
    · rintro raw ⟨⟩
  · split
    · rename_i channel hparse
      refine reads_of_wellFormed ?_ ?_
      · rintro c ⟨⟩
        exact isValid_of_tryParseChannel hparse
      · rintro raw ⟨⟩
    · exact reads_unknown line

theorem reads_parseMode (rest line : Text) : Reads isClassic line (parseMode rest) := by
  rw [parseMode]
  split
  · refine reads_of_wellFormed ⟨isTrimmed_nil, ?_, fun _ => by decide⟩ ?_
    · rintro c ⟨⟩
    · rintro raw ⟨⟩
  · split
    · rename_i channel hparse
      refine reads_of_wellFormed ⟨isTrimmed_trim _, ?_, ?_⟩ ?_
      · rintro c ⟨⟩
        exact isValid_of_tryParseChannel hparse
      · rintro ⟨⟩
      · rintro raw ⟨⟩
    · rename_i hparse
      refine reads_of_wellFormed ⟨isTrimmed_trim _, ?_, fun _ => hparse⟩ ?_
      · rintro c ⟨⟩
      · rintro raw ⟨⟩

theorem reads_parseInvite (rest line : Text) :
    Reads isClassic line (parseInvite rest line) := by
  have huser : IsAddressee (Callsigns.normalize (stripChannelHash (splitFirstWord rest).1)) :=
    isAddressee_of_token fun c hc => isWhiteSpace_of_mem_splitFirstWord hc
  rw [parseInvite]
  split
  · exact reads_unknown line
  · dsimp only
    split
    · refine reads_of_wellFormed ⟨huser, ?_⟩ ?_
      · rintro c ⟨⟩
      · rintro raw ⟨⟩
    · split
      · rename_i channel hparse
        refine reads_of_wellFormed ⟨huser, ?_⟩ ?_
        · rintro c ⟨⟩
          exact isValid_of_tryParseChannel hparse
        · rintro raw ⟨⟩
      · exact reads_unknown line

theorem reads_parseMsg (rest line : Text) : Reads isClassic line (parseMsg rest line) := by
  rw [parseMsg]
  dsimp only
  split
  · exact reads_unknown line
  · rename_i hgiven
    refine reads_of_wellFormed ⟨?_, isTrimmed_trim _, fun hnil => hgiven (Or.inr hnil)⟩ ?_
    · exact isAddressee_of_token fun c hc => isWhiteSpace_of_mem_splitFirstWord hc
    · rintro raw ⟨⟩

/-- A topic that is an at sign is none. -/
theorem isTrimmed_normaliseTopic {text : Text} (h : IsTrimmed text) :
    IsTrimmed (normaliseTopic text) ∧ normaliseTopic text ≠ ['@'] := by
  rw [normaliseTopic, h]
  split
  · exact ⟨isTrimmed_nil, by decide⟩
  · rename_i hne
    exact ⟨h, hne⟩

theorem Reads.ite {line : Text} {p : Prop} [Decidable p] {a b : ConsoleIntent}
    (ha : p → Reads isClassic line a) (hb : ¬p → Reads isClassic line b) :
    Reads isClassic line (if p then a else b) := by
  split
  · exact ha ‹_›
  · exact hb ‹_›

/-- On the classic surface nothing is said by a verb. -/
theorem reads_buildIntent {verb : Text} (hsay : isClassic = true → verb ≠ "say".toList)
    (rest line : Text) : Reads isClassic line (buildIntent verb rest line) := by
  have htrim := isTrimmed_trim rest
  have htopic := isTrimmed_normaliseTopic htrim
  -- one verb after another
  refine .ite (fun hverb => ?say) fun _ => .ite (fun _ => reads_parseJoin _ line) fun _ =>
    .ite (fun _ => reads_parseName _ line) fun _ => .ite (fun _ => reads_parseMsg _ line) fun _ =>
    .ite (fun _ => reads_of_wellFormed htopic ?topic) fun _ =>
    .ite (fun _ => reads_of_wellFormed htopic ?personal) fun _ =>
    .ite (fun _ => reads_of_wellFormed htrim ?away) fun _ =>
    .ite (fun _ => reads_parseMode _ line) fun _ =>
    .ite (fun _ => reads_of_wellFormed (isTrimmed_trim _) ?oper) fun _ =>
    .ite (fun _ => reads_of_wellFormed htrim ?who) fun _ =>
    .ite (fun _ => reads_parseInvite _ line) fun _ =>
    .ite (fun _ => reads_of_wellFormed htrim ?leave) fun _ =>
    .ite (fun _ => reads_of_wellFormed htrim ?quit) fun _ =>
    .ite (fun _ => reads_of_wellFormed htrim ?help) fun _ => reads_unknown line
  case say =>
    refine reads_of_wellFormed ?_ ?_
    · rcases isClassic
      · exact Or.inl htrim
      · exact absurd hverb (hsay rfl)
    · rintro raw ⟨⟩
  all_goals
    rintro raw ⟨⟩

/-- A slash with nothing but blanks after it is a word. -/
theorem resolve_slash {rest : Text} (h : trimStart rest = []) :
    ConsoleVerbs.resolve (splitFirstWord ('/' :: rest)).1 = none := by
  have htake : rest.takeWhile (!isWhiteSpace ·) = [] := by
    rcases rest with _ | ⟨c, rest⟩
    · rfl
    · refine List.takeWhile_cons_of_neg ?_
      rw [trimStart_eq_nil_iff.mp h c List.mem_cons_self]
      exact Bool.false_ne_true
  rw [splitFirstWord, show trimStart ('/' :: rest) = '/' :: rest from
    List.dropWhile_cons_of_neg (by decide)]
  dsimp only
  rw [List.takeWhile_cons_of_pos (by decide), htake]
  decide

theorem reads_parsePlain (line : Text) : Reads false line (parsePlain line) := by
  -- what is not a command is said, with the blanks after it
  have hsaid {text : Text} (hstart : trimStart text = text)
      (hverb : ConsoleVerbs.resolve (splitFirstWord text).1 = none) :
      Reads false line (.say text) := by
    refine reads_of_wellFormed (Or.inr ⟨hstart, hverb⟩) ?_
    rintro raw ⟨⟩
  rw [parsePlain]
  dsimp only
  split
  · refine reads_of_wellFormed trivial ?_
    rintro raw ⟨⟩
  rename_i hblank
  by_cases hslash : (trimStart line).head? = some '/'
  · obtain ⟨rest, hrest⟩ : ∃ rest, trimStart line = '/' :: rest :=
      List.head?_eq_some_iff.mp hslash
    simp only [if_pos hslash]
    rw [hrest, List.tail_cons]
    split
    · rename_i hbody
      exact hsaid (List.dropWhile_cons_of_neg (by decide)) (resolve_slash hbody)
    · split
      · rename_i hnone
        exact hsaid (trimStart_trimStart rest) hnone
      · exact reads_buildIntent (by rintro ⟨⟩) _ line
  · simp only [if_neg hslash, if_neg hblank]
    split
    · rename_i hnone
      exact hsaid (trimStart_trimStart line) hnone
    · exact reads_buildIntent (by rintro ⟨⟩) _ line

theorem reads_parseClassic (line : Text) : Reads true line (parseClassic line) := by
  have hverbs : ∀ e ∈ ClassicCommands.table, e.verb ≠ "say".toList := by decide
  rw [parseClassic]
  split
  · refine reads_of_wellFormed trivial ?_
    rintro raw ⟨⟩
  rename_i hblank
  obtain ⟨-, hblank⟩ := not_or.mp hblank
  split
  · rename_i hslash
    refine reads_of_wellFormed ⟨hblank, hslash⟩ ?_
    rintro raw ⟨⟩
  dsimp only
  split
  · exact reads_unknown line
  split
  · exact reads_unknown line
  · rename_i verb hverb
    refine reads_buildIntent (fun _ => ?_) _ line
    obtain ⟨-, ⟨-, rfl⟩ | ⟨e, he, -, rfl⟩⟩ := (ClassicCommands.resolveIn_eq_some (.refl _)).mp hverb
    · decide
    · exact hverbs e he

/-- **What is read is well formed**, and what cannot be told is the line itself. No handler of an
intent has to check what it is given again. -/
theorem reads_parse (line : Text) : Reads isClassic line (parse isClassic line) := by
  rcases isClassic
  · exact reads_parsePlain line
  · exact reads_parseClassic line

/-! ### What is well formed can be typed -/

/-- A verb and what is given with it, after a slash. -/
def command (verb args : Text) : Text := '/' :: (verb ++ ' ' :: args)

/-- The verbs that both surfaces have, and which have the same name there. -/
def commonVerbs : List Text :=
  ["join".toList, "msg".toList, "topic".toList, "personal".toList, "away".toList, "mode".toList,
    "oper".toList, "who".toList, "invite".toList, "leave".toList, "quit".toList, "help".toList]

theorem parsePlain_slash {body : Text} (hstart : trimStart body = body) (hne : body ≠ []) :
    parsePlain ('/' :: body) =
      match ConsoleVerbs.resolve (splitFirstWord body).1 with
      | none => .say body
      | some verb => buildIntent verb (splitFirstWord body).2 ('/' :: body) := by
  have hline : trimStart ('/' :: body) = '/' :: body := List.dropWhile_cons_of_neg (by decide)
  rw [parsePlain, hline]
  simp only [List.head?_cons, List.tail_cons, if_true, hstart, if_neg hne,
    if_neg (List.cons_ne_nil '/' body)]

theorem parseClassic_slash {body : Text} (hne : body ≠ []) :
    parseClassic ('/' :: body) =
      match ClassicCommands.resolve (splitFirstWord body).1 with
      | none => .unknown ('/' :: body)
      | some verb => buildIntent verb (splitFirstWord body).2 ('/' :: body) := by
  have hend : trimEnd ('/' :: body) ≠ [] := by
    rw [trimEnd, Ne, List.rdropWhile_eq_nil_iff]
    intro h
    exact absurd (h '/' List.mem_cons_self) (by decide)
  rw [parseClassic, if_neg (not_or.mpr ⟨List.cons_ne_nil _ _, hend⟩)]
  simp only [List.head?_cons, List.tail_cons, ne_eq, not_true_eq_false, if_false]
  exact if_neg hne

/-- **A command means the same on both surfaces.** What a user has learnt on one surface so works on
the other one. -/
theorem parse_command {verb : Text} (hverb : verb ∈ commonVerbs) (args : Text) :
    parse isClassic (command verb args) = buildIntent verb args (command verb args) := by
  have hall : ∀ v ∈ commonVerbs, ConsoleVerbs.resolve v = some v ∧
      ClassicCommands.resolve v = some v ∧ (∀ c ∈ v, isWhiteSpace c = false) ∧ v ≠ [] := by
    decide +kernel
  obtain ⟨hplain, hclassic, hword, hne⟩ := hall verb hverb
  have hbody : verb ++ ' ' :: args ≠ [] := List.append_ne_nil_of_left_ne_nil hne _
  rw [command]
  rcases isClassic
  · rw [parse, if_neg Bool.false_ne_true, parsePlain_slash (trimStart_append hword hne _) hbody,
      splitFirstWord_word_blank hword hne]
    dsimp only
    rw [hplain]
  · rw [parse, if_pos rfl, parseClassic_slash hbody, splitFirstWord_word_blank hword hne]
    dsimp only
    rw [hclassic]

theorem buildIntent_mode (rest raw : Text) :
    buildIntent "mode".toList rest raw = parseMode (trim rest) := rfl

/-- On the plain surface it can be said. -/
theorem parsePlain_say (text : Text) :
    parsePlain (command "say".toList text) = .say (trim text) := by
  have hword : ∀ c ∈ "say".toList, isWhiteSpace c = false := by decide
  rw [command, parsePlain_slash (trimStart_append hword (by decide) _) (List.cons_ne_nil _ _),
    splitFirstWord_word_blank hword (by decide),
    ConsoleVerbs.resolve_of_mem (show "say".toList ∈ ConsoleVerbs.all by decide)]
  rfl

/-- An addressee is typed with a hash in front, and a text after it. -/
theorem splitFirstWord_addressee {user text : Text} (huser : IsAddressee user)
    (htext : IsTrimmed text) :
    splitFirstWord (trim ('#' :: user ++ ' ' :: text)) = ('#' :: user, text) ∧
      trim ('#' :: user ++ ' ' :: text) ≠ [] := by
  have hword : ∀ c ∈ '#' :: user, isWhiteSpace c = false := by
    intro c hc
    rcases List.mem_cons.mp hc with rfl | hc
    · decide
    · exact huser.2 c hc
  exact ⟨splitFirstWord_trim hword (List.cons_ne_nil _ _) htext,
    trim_word_blank_ne_nil hword (List.cons_ne_nil _ _) htext⟩

theorem normalize_addressee {user : Text} (huser : IsAddressee user) :
    Callsigns.normalize (stripChannelHash ('#' :: user)) = user := huser.1

theorem normaliseTopic_eq {text : Text} (htrim : IsTrimmed text) (hne : text ≠ ['@']) :
    normaliseTopic text = text := by
  rw [normaliseTopic, htrim, if_neg hne]

/-- A channel is a word. -/
theorem isWhiteSpace_decimal (channel : Int32) :
    ∀ c ∈ decimal channel.toInt, isWhiteSpace c = false := fun _ hc =>
  isWhiteSpace_of_mem_decimal hc

theorem isTrimmed_decimal (channel : Int32) : IsTrimmed (decimal channel.toInt) :=
  trim_eq_self (isWhiteSpace_decimal channel)

theorem exists_parse_say {text : Text} (h : IsSayable isClassic text) :
    ∃ line, parse isClassic line = .say text := by
  rcases isClassic
  · rcases h with htrim | ⟨hstart, hverb⟩
    · refine ⟨command "say".toList text, (parsePlain_say text).trans ?_⟩
      rw [htrim]
    · by_cases hnil : text = []
      · subst hnil
        exact ⟨command "say".toList [], parsePlain_say []⟩
      · refine ⟨'/' :: text, (parsePlain_slash hstart hnil).trans ?_⟩
        rw [hverb]
  · refine ⟨text, ?_⟩
    obtain ⟨hend, hslash⟩ := h
    rw [parse, if_pos rfl, parseClassic, if_neg, if_pos hslash]
    rintro (rfl | hnil)
    · exact hend rfl
    · exact hend hnil

theorem exists_parse_msg {toUser text : Text} (huser : IsAddressee toUser) (htext : IsTrimmed text)
    (hne : text ≠ []) : ∃ line, parse isClassic line = .msg toUser text := by
  refine ⟨command "msg".toList ('#' :: toUser ++ ' ' :: text),
    (parse_command (by decide) _).trans ?_⟩
  change parseMsg (trim ('#' :: toUser ++ ' ' :: text)) _ = _
  rw [parseMsg, (splitFirstWord_addressee huser htext).1]
  dsimp only
  rw [htext, if_neg (not_or.mpr ⟨List.cons_ne_nil _ _, hne⟩), normalize_addressee huser]

theorem exists_parse_join {channel : Option Int32}
    (h : ∀ c ∈ channel, ChannelNumber.isValid c = true) :
    ∃ line, parse isClassic line = .join channel := by
  rcases channel with _ | channel
  · exact ⟨command "join".toList [], parse_command (by decide) []⟩
  · refine ⟨command "join".toList (decimal channel.toInt), (parse_command (by decide) _).trans ?_⟩
    change parseJoin (trim (decimal channel.toInt)) _ = _
    rw [isTrimmed_decimal, parseJoin, if_neg (decimal_ne_nil _),
      splitFirstWord_word (isWhiteSpace_decimal channel), tryParseChannel_decimal (h channel rfl)]

theorem exists_parse_invite {user : Text} {channel : Option Int32} (huser : IsAddressee user)
    (h : ∀ c ∈ channel, ChannelNumber.isValid c = true) :
    ∃ line, parse isClassic line = .invite user channel := by
  rcases channel with _ | channel
  · refine ⟨command "invite".toList ('#' :: user ++ ' ' :: []),
      (parse_command (by decide) _).trans ?_⟩
    change parseInvite (trim ('#' :: user ++ ' ' :: [])) _ = _
    obtain ⟨hsplit, hne⟩ := splitFirstWord_addressee huser isTrimmed_nil
    rw [parseInvite, if_neg hne, hsplit]
    dsimp only
    rw [normalize_addressee huser, isTrimmed_nil, if_pos rfl]
  · refine ⟨command "invite".toList ('#' :: user ++ ' ' :: decimal channel.toInt),
      (parse_command (by decide) _).trans ?_⟩
    change parseInvite (trim ('#' :: user ++ ' ' :: decimal channel.toInt)) _ = _
    obtain ⟨hsplit, hne⟩ := splitFirstWord_addressee huser (isTrimmed_decimal channel)
    rw [parseInvite, if_neg hne, hsplit]
    dsimp only
    rw [normalize_addressee huser, isTrimmed_decimal, if_neg (decimal_ne_nil _),
      splitFirstWord_word (isWhiteSpace_decimal channel), tryParseChannel_decimal (h channel rfl)]

/-- A word that is a channel, and options after it. -/
theorem parseMode_word {word options : Text} {channel : Int32}
    (hword : ∀ c ∈ word, isWhiteSpace c = false) (hne : word ≠ []) (htrim : IsTrimmed options)
    (hchannel : tryParseChannel word = some channel) :
    parseMode (trim (word ++ ' ' :: options)) = .mode (some channel) options := by
  have hsplit := splitFirstWord_trim hword hne htrim
  have hgiven := trim_word_blank_ne_nil hword hne htrim
  rw [parseMode, trim_trim, if_neg hgiven, hsplit]
  dsimp only
  rw [hchannel, htrim]

theorem exists_parse_mode {channel : Option Int32} {options : Text} (htrim : IsTrimmed options)
    (h : ∀ c ∈ channel, ChannelNumber.isValid c = true)
    (hnone : channel = none → tryParseChannel (splitFirstWord options).1 = none) :
    ∃ line, parse isClassic line = .mode channel options := by
  rcases channel with _ | channel
  · refine ⟨command "mode".toList options, (parse_command (by decide) _).trans ?_⟩
    change parseMode (trim options) = _
    rw [parseMode, htrim, htrim, hnone rfl]
    split
    · rename_i hnil
      rw [hnil]
    · rfl
  · refine ⟨command "mode".toList (decimal channel.toInt ++ ' ' :: options),
      (parse_command (by decide) _).trans ?_⟩
    rw [buildIntent_mode]
    exact parseMode_word (isWhiteSpace_decimal channel) (decimal_ne_nil _) htrim
      (tryParseChannel_decimal (h channel rfl))

/-- **The intents that are read are the well-formed ones**: each can be typed, and nothing else is
read from any line. -/
theorem exists_parse_iff {intent : ConsoleIntent} (hknown : ∀ raw, intent ≠ .unknown raw) :
    (∃ line, parse isClassic line = intent) ↔ intent.WellFormed isClassic := by
  refine ⟨?_, fun h => ?_⟩
  · rintro ⟨line, rfl⟩
    exact (reads_parse line).1
  cases intent with
  | empty => exact ⟨[], by rcases isClassic <;> rfl⟩
  | say text => exact exists_parse_say h
  | join channel => exact exists_parse_join h
  | msg toUser text => exact exists_parse_msg h.1 h.2.1 h.2.2
  | topic text =>
    refine ⟨command "topic".toList text, (parse_command (by decide) _).trans ?_⟩
    change ConsoleIntent.topic (normaliseTopic (trim text)) = _
    rw [h.1, normaliseTopic_eq h.1 h.2]
  | personal text =>
    refine ⟨command "personal".toList text, (parse_command (by decide) _).trans ?_⟩
    change ConsoleIntent.personal (normaliseTopic (trim text)) = _
    rw [h.1, normaliseTopic_eq h.1 h.2]
  | who argument =>
    exact ⟨command "who".toList argument,
      (parse_command (by decide) _).trans (congrArg ConsoleIntent.who h)⟩
  | away text =>
    exact ⟨command "away".toList text,
      (parse_command (by decide) _).trans (congrArg ConsoleIntent.away h)⟩
  | oper secret =>
    refine ⟨command "oper".toList secret, (parse_command (by decide) _).trans ?_⟩
    exact congrArg ConsoleIntent.oper ((trim_trim secret).trans h)
  | leave reason =>
    exact ⟨command "leave".toList reason,
      (parse_command (by decide) _).trans (congrArg ConsoleIntent.leave h)⟩
  | quit reason =>
    exact ⟨command "quit".toList reason,
      (parse_command (by decide) _).trans (congrArg ConsoleIntent.quit h)⟩
  | invite user channel => exact exists_parse_invite h.1 h.2
  | mode channel options => exact exists_parse_mode h.1 h.2.1 h.2.2
  | help subject =>
    exact ⟨command "help".toList subject,
      (parse_command (by decide) _).trans (congrArg ConsoleIntent.help h)⟩
  | unknown raw => exact absurd rfl (hknown raw)

/-- A private message. What the parser makes of the line is the intent it was written for. -/
theorem exists_parse_exampleMsg :
    (∃ line, parse true line = .msg "M0ABC".toList "hello there".toList) ↔
      ConsoleIntent.WellFormed true (.msg "M0ABC".toList "hello there".toList) :=
  exists_parse_iff (by rintro raw ⟨⟩)

end ConsoleParser

end Convers
