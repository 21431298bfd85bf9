import Convers.Host.HostLink

/-!
# The golden rule on unmodelled verbs

A command whose verb the program does not model is passed on to the other hosts, and the
line that is passed on is written from what was read: the verb in capitals, and the text
behind it without the blanks in front. `Convers.HostCommandCodec.AsWritten` is when that
is the line that was received (`Convers.PeerRelay.relaysVerbatim_iff`): no letter of the
verb has a capital other than itself, no blank is in front of the verb, and one blank, a
space, is behind it when there is a text.

Bytes are compared: a letter the wire has no byte for is a question mark, and so is its
capital (`Convers.encode_toUpperInvariant_iff`).
-/

namespace Convers

/-! ### The bytes of capitals -/

/-- The checks on the planes of the table, evaluated once: a letter above Latin-1 has its
capital above Latin-1 and in its own plane, and one in Latin-1 has it in the first plane. -/
theorem simpleCaseRanges_planes :
    simpleCaseRanges.all (fun r =>
      (r.last < 0x100 && r.capital r.last < 0x10000) ||
      (0x100 ≤ r.first && r.last < 0x10000 && 0x100 ≤ r.target && r.capital r.last < 0x10000) ||
      (0x10000 ≤ r.first && 0x10000 ≤ r.target)) = true := by
  decide +kernel

/-- A letter and its capital: either both are above Latin-1, in one plane, or the letter is
in Latin-1. -/
theorem toUpperChar_plane (c : Char) :
    toUpperChar c = c ∨
      (c.toNat < 0x100 ∧ (toUpperChar c).toNat < 0x10000) ∨
      (0x100 ≤ c.toNat ∧ 0x100 ≤ (toUpperChar c).toNat ∧
        (c.toNat < 0x10000 ↔ (toUpperChar c).toNat < 0x10000)) := by
  rcases toUpperChar_cases c with h | ⟨r, hr, hcov, h⟩
  · exact Or.inl h
  · right
    obtain ⟨-, -, -, -, hvalid⟩ := CaseRange.bounds hr hcov
    obtain ⟨h1, h2, -⟩ := CaseRange.covers_iff.mp hcov
    have hplane := List.all_eq_true.mp simpleCaseRanges_planes r hr
    simp only [Bool.or_eq_true, Bool.and_eq_true, decide_eq_true_eq] at hplane
    rw [h, Char.toNat_ofNat, if_pos hvalid]
    simp only [CaseRange.capital] at hplane ⊢
    omega

/-- A capital takes as many bytes as its letter. -/
theorem length_encodeChar_toUpperChar (c : Char) :
    (encodeChar (toUpperChar c)).length = (encodeChar c).length := by
  rcases toUpperChar_plane c with h | ⟨hc, hd⟩ | ⟨hc, hd, hiff⟩
  · rw [h]
  · have hlength : ∀ d : Char, d.toNat < 0x10000 → (encodeChar d).length = 1 := by
      intro d hd
      rw [encodeChar]
      split_ifs <;> rfl
    rw [hlength _ hd, hlength _ (by omega)]
  · simp only [encodeChar, if_neg (not_lt.mpr hc), if_neg (not_lt.mpr hd), hiff]

/-- **The bytes of a character tell it from its capital in Latin-1**, and only there. So to
upper-case a verb leaves its bytes alone only if it is in capitals already. -/
theorem encodeChar_toUpperChar_iff (c : Char) :
    encodeChar (toUpperChar c) = encodeChar c ↔ (isLatin1 c = true → toUpperChar c = c) := by
  constructor
  · intro hbytes hlatin1
    have hc : c.toNat < 0x100 := by simpa [isLatin1] using hlatin1
    rw [encodeChar, encodeChar, if_pos hc] at hbytes
    split at hbytes
    · rename_i hd
      rw [← decodeByte_ofNat hd, List.cons.inj hbytes |>.1, decodeByte_ofNat hc]
    · split at hbytes
      · -- the capital is a question mark on the wire, so the letter is one
        have hmark : c = '?' := by
          rw [← decodeByte_ofNat hc, ← (List.cons.inj hbytes).1]
          decide
        rw [hmark]
        decide +kernel
      · cases (List.cons.inj hbytes).2
  · intro hsame
    rcases toUpperChar_plane c with h | ⟨hc, hd⟩ | ⟨hc, hd, hiff⟩
    · rw [h]
    · rw [hsame (decide_eq_true hc)]
    · simp only [encodeChar, if_neg (not_lt.mpr hc), if_neg (not_lt.mpr hd), hiff]

theorem length_encode_toUpperInvariant (t : Text) :
    (encode (toUpperInvariant t)).length = (encode t).length := by
  induction t with
  | nil => rfl
  | cons c t ih =>
    rw [toUpperInvariant, List.map_cons, encode_cons, encode_cons, List.length_append,
      List.length_append, length_encodeChar_toUpperChar]
    exact congrArg _ ih

/-- A text and its capitals are the same bytes when no letter of Latin-1 in it has another
capital. -/
theorem encode_toUpperInvariant_iff (t : Text) :
    encode (toUpperInvariant t) = encode t ↔
      ∀ c ∈ t, isLatin1 c = true → toUpperChar c = c := by
  induction t with
  | nil => simp [toUpperInvariant]
  | cons c t ih =>
    rw [List.forall_mem_cons, ← ih, ← encodeChar_toUpperChar_iff, toUpperInvariant,
      List.map_cons, encode_cons, encode_cons]
    constructor
    · intro hbytes
      exact List.append_inj hbytes (length_encodeChar_toUpperChar c)
    · rintro ⟨hc, ht⟩
      rw [hc]
      exact congrArg _ ht

/-- A blank is one byte, and a space is no other blank. -/
theorem encodeChar_of_isSpace {c : Char} (hc : isSpace c = true) :
    (encodeChar c).length = 1 ∧ (encodeChar c = encodeChar ' ' → c = ' ') := by
  simp only [isSpace, Bool.or_eq_true, decide_eq_true_eq] at hc
  rcases hc with ((((rfl | rfl) | rfl) | rfl) | rfl) | rfl <;> decide

theorem length_encode_blanks {t : Text} (ht : ∀ c ∈ t, isSpace c = true) :
    (encode t).length = t.length := by
  induction t with
  | nil => rfl
  | cons c t ih =>
    rw [encode_cons, List.length_append, (encodeChar_of_isSpace (ht c (by simp))).1,
      ih fun d hd => ht d (by simp [hd]), List.length_cons, Nat.add_comm]

namespace ConversTokenizer

/-- **How a text is read**: blanks, the first token, blanks, and the rest. A body is put together
from these four, and the writer puts back all but the blanks. -/
theorem exists_read (body : Text) :
    ∃ lead tok blanks text, body = lead ++ (tok ++ (blanks ++ text)) ∧
      (∀ c ∈ lead, isSpace c = true) ∧ (∀ c ∈ tok, isSpace c = false) ∧
        (∀ c ∈ blanks, isSpace c = true) ∧ IsFreeText text ∧
          next ⟨body⟩ = (tok, ⟨blanks ++ text⟩) ∧ rest ⟨blanks ++ text⟩ = text ∧
            (tok = [] → blanks = [] ∧ text = []) ∧ (text ≠ [] → blanks ≠ []) := by
  have hfree : ∀ t : Text, IsFreeText (t.dropWhile isSpace) := by
    intro t c hc
    rcases ht : t.dropWhile isSpace with _ | ⟨d, s⟩
    · rw [ht] at hc
      cases hc
    · have hne : t.dropWhile isSpace ≠ [] := by simp [ht]
      have hd := List.head_dropWhile_not isSpace hne
      rw [ht] at hc
      cases hc
      simpa [ht] using hd
  refine ⟨body.takeWhile isSpace, (body.dropWhile isSpace).takeWhile (! isSpace ·),
    ((body.dropWhile isSpace).dropWhile (! isSpace ·)).takeWhile isSpace,
    ((body.dropWhile isSpace).dropWhile (! isSpace ·)).dropWhile isSpace, ?_,
    fun c hc => List.mem_takeWhile_imp hc, fun c hc => ?_, fun c hc => List.mem_takeWhile_imp hc,
    hfree _, ?_, ?_, ?_, ?_⟩
  · rw [List.takeWhile_append_dropWhile, List.takeWhile_append_dropWhile,
      List.takeWhile_append_dropWhile]
  · simpa using List.mem_takeWhile_imp hc
  · rw [List.takeWhile_append_dropWhile]
    rfl
  · rw [List.takeWhile_append_dropWhile]
    rfl
  · -- a text that starts with no blank starts with its first token
    intro htok
    have hstart := hfree body
    rcases hs : body.dropWhile isSpace with _ | ⟨c, s⟩
    · exact ⟨rfl, rfl⟩
    · rw [hs] at htok hstart
      rw [List.takeWhile_cons_of_pos (by simp [hstart c rfl])] at htok
      cases htok
  · intro htext hblanks
    -- what is behind the token starts with a blank
    rcases hs : (body.dropWhile isSpace).dropWhile (! isSpace ·) with _ | ⟨c, s⟩
    · rw [hs] at htext
      exact htext rfl
    · have hne : (body.dropWhile isSpace).dropWhile (! isSpace ·) ≠ [] := by simp [hs]
      have hc := List.head_dropWhile_not (! isSpace ·) hne
      have hc : isSpace c = true := by simpa [hs] using hc
      rw [hs, List.takeWhile_cons_of_pos hc] at hblanks
      cases hblanks

end ConversTokenizer

namespace HostCommandCodec

open HostCommand ConversTokenizer

/-- **The text behind the prefix is spelled as `Format` writes it**: a verb with no letter
that has another capital, and nothing more or one space and a text. -/
def AsWritten (body : Text) : Prop :=
  ∃ verb text, body = verb ++ optionalField text ∧ (∀ c ∈ verb, isSpace c = false) ∧
    (∀ c ∈ verb, isLatin1 c = true → toUpperChar c = c) ∧ IsFreeText text ∧
      (verb = [] → text = [])

/-- The verb of a text behind the prefix, in capitals. -/
def verbOf (body : Text) : Text := toUpperInvariant (next ⟨body⟩).1

theorem parseBody_of_not_modelled {body : Text} (hverb : verbOf body ∉ modelledVerbs) :
    parseBody body = unknownHostCommand (verbOf body) (next ⟨body⟩).2.rest := by
  unfold parseBody
  dsimp only
  split
  · rename_i reader hfind
    have hname : reader.1 = verbOf body := of_decide_eq_true (List.find?_some hfind :)
    exact absurd (List.mem_map.mpr ⟨reader, List.mem_of_find?_eq_some hfind, hname⟩) hverb
  · rfl

theorem format_unknownHostCommand (verb text : Text) :
    format (unknownHostCommand verb text) = hostCommandPrefix ++ (verb ++ optionalField text) := by
  rcases text with _ | ⟨c, text⟩
  · exact (congrArg (hostCommandPrefix ++ ·) (List.append_nil verb)).symm
  · rfl

/-- **The line that is written is the line that was read**, byte for byte, when it is spelled as it
is written. Three things may differ: the case of the verb, the blanks around it, and the blanks at
the end. -/
theorem encode_format_iff {body : Text} (hverb : verbOf body ∉ modelledVerbs) :
    encode (format (parseBody body)) = encode (hostCommandPrefix ++ body) ↔ AsWritten body := by
  rw [parseBody_of_not_modelled hverb, format_unknownHostCommand, encode_append,
    encode_append hostCommandPrefix body, List.append_right_inj, encode_append]
  constructor
  · intro hbytes
    obtain ⟨lead, tok, blanks, text, hbody, hlead, htok, hblanks, htext, hnext, hrest, hnil,
      hsep⟩ := exists_read body
    rw [verbOf, hnext, hrest, hbody] at hbytes
    simp only [encode_append] at hbytes
    have hlength := congrArg List.length hbytes
    simp only [List.length_append, length_encode_toUpperInvariant, length_encode_blanks hlead,
      length_encode_blanks hblanks] at hlength
    rcases text with _ | ⟨c, text⟩
    · -- no text: there is no blank anywhere
      have hno : lead.length = 0 ∧ blanks.length = 0 := by
        have hnone : (encode (optionalField [])).length = 0 := rfl
        rw [hnone, encode_nil, List.length_nil] at hlength
        omega
      rw [List.eq_nil_of_length_eq_zero hno.1, List.eq_nil_of_length_eq_zero hno.2] at hbytes hbody
      have hverb : encode (toUpperInvariant tok) = encode tok := by
        simpa [optionalField] using hbytes
      exact ⟨tok, [], hbody, htok, (encode_toUpperInvariant_iff tok).mp hverb, htext, fun _ => rfl⟩
    · -- the one blank that is written is the one that was read
      have hone : lead.length = 0 ∧ blanks.length = 1 := by
        have hpos : 0 < blanks.length := List.length_pos_iff.mpr (hsep (by simp))
        have hfield : (encode (optionalField (c :: text))).length =
            1 + (encode (c :: text)).length := by
          rw [optionalField, if_neg (by simp), field, encode_cons, List.length_append]
          rfl
        rw [hfield] at hlength
        omega
      obtain ⟨b, rfl⟩ := List.length_eq_one_iff.mp hone.2
      rw [List.eq_nil_of_length_eq_zero hone.1] at hbytes hbody
      rw [encode_nil, List.nil_append] at hbytes
      obtain ⟨hverb, hfield⟩ := List.append_inj hbytes (length_encode_toUpperInvariant tok)
      have hspace : b = ' ' := by
        refine (encodeChar_of_isSpace (hblanks b (by simp))).2 ?_
        have hb : encode [b] = encodeChar b := List.append_nil _
        rw [optionalField, if_neg (by simp), field, encode_cons, hb] at hfield
        exact (List.append_inj hfield.symm (encodeChar_of_isSpace (hblanks b (by simp))).1).1
      rw [hspace] at hbody
      exact ⟨tok, c :: text, hbody, htok, (encode_toUpperInvariant_iff tok).mp hverb, htext,
        fun h => absurd (hnil h).2 (by simp)⟩
  · rintro ⟨tok, text, rfl, htok, hupper, htext, hnil⟩
    have hnext : next ⟨tok ++ optionalField text⟩ = (tok, ⟨optionalField text⟩) := by
      rcases tok with _ | ⟨c, tok⟩
      · rw [hnil rfl]
        rfl
      · exact next_token ⟨by simp, htok⟩ (stops_optionalField text)
    have hrest : rest ⟨optionalField text⟩ = text := by
      rw [optionalField]
      split
      · rename_i hzero
        rw [List.eq_nil_of_length_eq_zero hzero]
        rfl
      · exact rest_blank htext
    rw [verbOf, hnext, hrest, encode_append, (encode_toUpperInvariant_iff tok).mpr hupper]

end HostCommandCodec

namespace PeerRelay

open HostCommandCodec

/-- **A line is relayed verbatim**: the command it is read as passes the golden rule, and
the line that is written for it has the same bytes. -/
def RelaysVerbatim (line : Text) : Prop :=
  ∃ c, parse line = .ok c ∧ contentOf line = some c ∧ encode (format c) = encode line

/-- **An unmodelled command is relayed verbatim when it is spelled as it is written**, and otherwise
it is not. A facility of a newer host gets through the relay under this condition. -/
theorem relaysVerbatim_iff {body : Text} (hverb : verbOf body ∉ modelledVerbs) :
    RelaysVerbatim (hostCommandPrefix ++ body) ↔ AsWritten body := by
  have hparse : parse (hostCommandPrefix ++ body) = .ok (parseBody body) := by
    rw [parse, stripPrefix_hostCommandPrefix]
  have hcontent : contentOf (hostCommandPrefix ++ body) = some (parseBody body) := by
    rw [contentOf_eq_some, stripPrefix_hostCommandPrefix, Option.map_some,
      parseBody_of_not_modelled hverb]
    exact ⟨rfl, rfl⟩
  rw [← encode_format_iff hverb]
  constructor
  · rintro ⟨c, hc, -, hbytes⟩
    rw [hparse] at hc
    cases hc
    exact hbytes
  · exact fun hbytes => ⟨parseBody body, hparse, hcontent, hbytes⟩

/-- A line with a verb of the future. -/
theorem relaysVerbatim_iff_wxyz :
    RelaysVerbatim (hostCommandPrefix ++ "WXYZ some arbitrary payload here".toList) ↔
      AsWritten "WXYZ some arbitrary payload here".toList :=
  relaysVerbatim_iff (by decide +kernel)

/-- **A verb in small letters is put in capitals on the way.** The codec keeps the body of an
unknown command, but not the spelling of its verb. -/
theorem not_relaysVerbatim_small :
    verbOf "wxyz hello".toList ∉ modelledVerbs ∧
      (∀ c ∈ hostCommandPrefix ++ "wxyz hello".toList, isTerminator c = false) ∧
        ¬RelaysVerbatim (hostCommandPrefix ++ "wxyz hello".toList) := by
  refine ⟨by decide +kernel, by decide +kernel, ?_⟩
  rintro ⟨c, hc, -, hbytes⟩
  have hread : parse (hostCommandPrefix ++ "wxyz hello".toList) =
      .ok (.unknownHostCommand "WXYZ".toList "hello".toList) := by
    decide +kernel
  rw [hread] at hc
  cases hc
  have hdiffer : encode (format (.unknownHostCommand "WXYZ".toList "hello".toList)) ≠
      encode (hostCommandPrefix ++ "wxyz hello".toList) := by
    decide +kernel
  exact hdiffer hbytes

end PeerRelay

end Convers
