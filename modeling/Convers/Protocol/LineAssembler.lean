import Convers.Protocol.Wire

/-!
# The incremental splitter, and what a framed text becomes

`Convers.LineAssembler` is the splitter of the session layer and of the
host-link transport: it keeps the line read so far and remembers that a CR came
last, so that a CRLF ends one line only. Unlike `Convers.splitLines` it reports
empty lines; the transport drops them.

* `Convers.LineAssembler.feed_eq_splitLines` – the two splitters agree on what
  they read, once the empty lines are dropped.
* `Convers.splitLines_frameLine_iff` – a framed text is read back as exactly one
  line iff nothing in it comes after a terminator.
-/

namespace Convers

/-- The state of `LineAssembler`: the line so far, and whether the last byte was
a CR, whose LF is to be swallowed. -/
structure LineAssembler where
  /-- The characters since the last terminator. -/
  current : Text
  /-- Whether the next LF belongs to a CRLF. -/
  skipNextLf : Bool
  deriving DecidableEq

namespace LineAssembler

/-- A fresh assembler. -/
def fresh : LineAssembler := ⟨[], false⟩

/-- `LineAssembler.Feed`: the state after a chunk, and the lines it completed. -/
def feed : LineAssembler → List UInt8 → LineAssembler × List Text
  | a, [] => (a, [])
  | a, b :: bs =>
    if a.skipNextLf && b = 0x0A then feed { a with skipNextLf := false } bs
    else if b = 0x0D then
      let (a', lines) := feed ⟨[], true⟩ bs
      (a', a.current :: lines)
    else if b = 0x0A then
      let (a', lines) := feed ⟨[], false⟩ bs
      (a', a.current :: lines)
    else feed ⟨a.current ++ [decodeByte b], false⟩ bs

/-- Feeding twice. -/
theorem feed_append (a : LineAssembler) (x y : List UInt8) :
    a.feed (x ++ y) = (((a.feed x).1.feed y).1, (a.feed x).2 ++ ((a.feed x).1.feed y).2) := by
  induction x generalizing a with
  | nil => rfl
  | cons b x ih =>
    rw [List.cons_append, feed, feed]
    split
    · exact ih _
    · split
      · rw [ih]
        rfl
      · split
        · rw [ih]
          rfl
        · exact ih _

/-- A CR leaves no text behind: what an assembler may be. -/
def Sound (a : LineAssembler) : Prop := a.skipNextLf = true → a.current = []

/-- Dropping the empty lines of a list. -/
def dropEmpty (lines : List Text) : List Text := lines.filter (·.length ≠ 0)

theorem dropEmpty_cons (l : Text) (lines : List Text) :
    dropEmpty (l :: lines) = if l.length = 0 then dropEmpty lines else l :: dropEmpty lines := by
  rcases l with _ | ⟨c, l⟩ <;> simp [dropEmpty]

/-- **The two splitters agree**: up to empty lines an assembler holding the text of `start`
completes the lines `Convers.splitLinesLoop` finds, and is left with the text of its remainder. The
invariant is that the text the one holds is the decoded remainder of the other. -/
theorem feed_eq_splitLinesLoop (bs : List UInt8) :
    ∀ (a : LineAssembler) (start : List UInt8), a.Sound → a.current = decode start →
      dropEmpty (a.feed bs).2 = (splitLinesLoop start bs).1 ∧
        (a.feed bs).1.current = decode (splitLinesLoop start bs).2 ∧ (a.feed bs).1.Sound := by
  induction bs with
  | nil => exact fun a start ha hcur => ⟨rfl, hcur, ha⟩
  | cons b bs ih =>
    intro a start ha hcur
    have hlen : a.current.length = start.length := by simp [hcur, decode]
    have hnil : ∀ s, (⟨[], s⟩ : LineAssembler).Sound := fun s _ => rfl
    -- a terminator completes the same line on both sides
    have hend : ∀ a' : LineAssembler, a'.Sound → a'.current = [] → isTerminatorByte b = true →
        dropEmpty (a.current :: (a'.feed bs).2) = (splitLinesLoop start (b :: bs)).1 ∧
          (a'.feed bs).1.current = decode (splitLinesLoop start (b :: bs)).2 ∧
            (a'.feed bs).1.Sound := by
      intro a' ha' hcur' hb
      obtain ⟨h1, h2, h3⟩ := ih a' [] ha' hcur'
      rcases eq_or_ne start [] with rfl | hne
      · rw [splitLinesLoop_blank hb, dropEmpty_cons, if_pos (by simpa using hlen)]
        exact ⟨h1, h2, h3⟩
      · have hlen0 : start.length ≠ 0 := by simpa using hne
        rw [splitLinesLoop_dispatch hb hlen0, dropEmpty_cons, if_neg (by rwa [hlen]), h1, hcur]
        exact ⟨rfl, h2, h3⟩
    rw [feed]
    split
    · -- the LF of a CRLF: the assembler swallows it, the splitter sees an empty line
      rename_i h
      simp only [Bool.and_eq_true, decide_eq_true_eq] at h
      have hempty : a.current = [] := ha h.1
      have hstart : start = [] := by simpa [hempty] using hlen.symm
      subst hstart
      rw [splitLinesLoop_blank (by simp [isTerminatorByte, h.2])]
      exact ih { a with skipNextLf := false } [] (fun _ => hempty) hempty
    · split
      · rename_i hb
        exact hend _ (hnil _) rfl (by simp [isTerminatorByte, hb])
      · split
        · rename_i hb
          exact hend _ (hnil _) rfl (by simp [isTerminatorByte, hb])
        · rename_i h13 h10
          rw [splitLinesLoop, if_neg (by simp [isTerminatorByte, h13, h10])]
          refine ih _ _ ?_ ?_
          · exact fun h => Bool.noConfusion h
          · simp [hcur]

/-- On one buffer the two splitters complete the same lines. -/
theorem feed_eq_splitLines (bs : List UInt8) :
    dropEmpty (fresh.feed bs).2 = (splitLines bs).1 :=
  (feed_eq_splitLinesLoop bs fresh [] (fun _ => rfl) rfl).1

end LineAssembler

/-! ### What a framed text is read back as -/

/-- A text that begins with no terminator has a body. -/
theorem lineBody_cons {c : Char} (hc : isTerminator c = false) (s : Text) :
    ∃ s', lineBody (c :: s) = c :: s' := by
  rcases h : lineBody (c :: s) with _ | ⟨d, s'⟩
  · have hall := List.rdropWhile_eq_nil_iff.mp h c (by simp)
    rw [hc] at hall
    exact absurd hall (by simp)
  · obtain ⟨ts, hts⟩ : lineBody (c :: s) <+: c :: s := List.rdropWhile_prefix _ _
    rw [h] at hts
    exact ⟨s', by rw [(by simpa using hts : d = c ∧ s' ++ ts = s).1]⟩

/-- The bytes of terminators are terminators, and there are as many. -/
theorem isTerminatorByte_of_mem_encode {ts : Text} (hts : ∀ c ∈ ts, isTerminator c = true)
    {b : UInt8} (hb : b ∈ encode ts) : isTerminatorByte b = true := by
  obtain ⟨c, hc, hbc⟩ := List.mem_flatMap.mp hb
  obtain ⟨b', hb', hterm⟩ := encodeChar_of_isTerminator (hts c hc)
  rw [hb', List.mem_singleton] at hbc
  rw [hbc, hterm]

theorem encode_ne_nil {t : Text} (h : t ≠ []) : encode t ≠ [] := by
  rcases t with _ | ⟨c, t⟩
  · exact absurd rfl h
  · simp [encodeChar_ne_nil c]

/-- The bytes of a text without terminators are none. -/
theorem isTerminatorByte_encode {t : Text} (ht : ∀ c ∈ t, isTerminator c = false) {b : UInt8}
    (hb : b ∈ encode t) : isTerminatorByte b = false := by
  obtain ⟨c, hc, hbc⟩ := List.mem_flatMap.mp hb
  exact isTerminatorByte_of_mem_encodeChar (ht c hc) hbc

section Frame

variable {terminator c : Char} {s : Text}

/-- **A single line is read back as one line**, with nothing left over. Commands and texts are
framed by it, and come out of the other end as they are. -/
theorem splitLines_frameLine (hterm : isTerminator terminator = true)
    (hc : isTerminator c = false) (h : SingleLine (c :: s)) :
    splitLines (frameLine terminator (c :: s)) = ([decode (encode (lineBody (c :: s)))], []) := by
  obtain ⟨ts, hts, hne, hall⟩ := terminate_eq hterm (c :: s)
  obtain ⟨s', hs'⟩ := lineBody_cons hc s
  rw [frameLine, hts, encode_append, splitLines,
    splitLinesLoop_append (fun b hb => isTerminatorByte_encode h hb), List.nil_append,
    splitLinesLoop_terminators (fun b hb => isTerminatorByte_of_mem_encode hall hb)
      (encode_ne_nil hne), if_neg]
  rw [hs', List.length_eq_zero_iff]
  exact encode_ne_nil (by simp)

/-- A text that is not one line has a first terminator, and text after it. -/
theorem exists_split_of_not_singleLine (hc : isTerminator c = false) (h : ¬SingleLine (c :: s)) :
    ∃ pre t post, lineBody (c :: s) = c :: pre ++ t :: post ∧
      (∀ d ∈ c :: pre, isTerminator d = false) ∧ isTerminator t = true ∧
        ∃ d ∈ post, isTerminator d = false := by
  obtain ⟨s', hs'⟩ := lineBody_cons hc s
  have hidem : (lineBody (c :: s)).rdropWhile isTerminator = lineBody (c :: s) :=
    List.rdropWhile_idempotent _ _
  rw [SingleLine] at h
  rw [hs'] at h hidem
  have hsplit := List.takeWhile_append_dropWhile (p := (! isTerminator ·)) (l := s')
  set pre := s'.takeWhile (! isTerminator ·) with hpredef
  have hpre : ∀ d ∈ c :: pre, isTerminator d = false := by
    intro d hd
    rcases List.mem_cons.mp hd with rfl | hd
    · exact hc
    · have hd' := List.mem_takeWhile_imp (hpredef ▸ hd)
      rwa [Bool.not_eq_true'] at hd'
  rcases hdrop : s'.dropWhile (! isTerminator ·) with _ | ⟨t, post⟩
  · rw [hdrop, List.append_nil] at hsplit
    rw [hsplit] at hpre
    exact absurd hpre h
  · have ht : isTerminator t = true := by
      have hd : s'.dropWhile (! isTerminator ·) ≠ [] := by simp [hdrop]
      have := List.head_dropWhile_not (! isTerminator ·) hd
      simpa [hdrop] using this
    rw [hdrop] at hsplit
    refine ⟨pre, t, post, by rw [hs', List.cons_append, hsplit], hpre, ht, ?_⟩
    -- the body ends in no terminator, so something of it comes after `t`
    by_contra hnone
    push Not at hnone
    have hall : ∀ d ∈ t :: post, isTerminator d = true := by
      intro d hd
      rcases List.mem_cons.mp hd with rfl | hd
      · exact ht
      · simpa using hnone d hd
    have hlast := List.rdropWhile_eq_self_iff.mp hidem (by simp)
    refine hlast (hall _ ?_)
    have hrw : ∀ l : Text, l = (c :: pre) ++ t :: post → ∀ hl : l ≠ [],
        l.getLast hl = (t :: post).getLast (by simp) := by
      rintro l rfl hl
      exact List.getLast_append_of_right_ne_nil _ _ (by simp)
    rw [hrw (c :: s') (by rw [List.cons_append, hsplit])]
    exact List.getLast_mem _

/-- A text with something after a terminator is read back as several lines. -/
theorem splitLines_frameLine_length (hterm : isTerminator terminator = true)
    (hc : isTerminator c = false) (h : ¬SingleLine (c :: s)) :
    2 ≤ (splitLines (frameLine terminator (c :: s))).1.length := by
  obtain ⟨ts, hts, hne, hall⟩ := terminate_eq hterm (c :: s)
  obtain ⟨pre, t, post, hbody, hpre, ht, d, hd, hdt⟩ := exists_split_of_not_singleLine hc h
  obtain ⟨b, hb, hbt⟩ := encodeChar_of_isTerminator ht
  obtain ⟨e, he⟩ := List.exists_mem_of_ne_nil _ (encodeChar_ne_nil d)
  have htail : (splitLinesLoop [] (encode post ++ encode ts)).1 ≠ [] := by
    refine splitLinesLoop_ne_nil (Or.inr ⟨e, ?_, isTerminatorByte_of_mem_encodeChar hdt he⟩) ?_
    · exact List.mem_append_left _ (List.mem_flatMap.mpr ⟨d, hd, he⟩)
    · rcases List.eq_nil_or_concat ts with rfl | ⟨ts', u, rfl⟩
      · exact absurd rfl hne
      · obtain ⟨b', hb', hbt'⟩ := encodeChar_of_isTerminator (hall u (by simp))
        exact ⟨encode post ++ encode ts', b', by simp [hb'], hbt'⟩
  have hbytes : frameLine terminator (c :: s) =
      encode (c :: pre) ++ b :: (encode post ++ encode ts) := by
    rw [frameLine, hts, hbody]
    simp [hb]
  have hlen : (encode (c :: pre)).length ≠ 0 := by
    rw [Ne, List.length_eq_zero_iff]
    exact encode_ne_nil (by simp)
  rw [hbytes, splitLines, splitLinesLoop_append fun x hx => isTerminatorByte_encode hpre hx,
    List.nil_append, splitLinesLoop_dispatch hbt hlen, List.length_cons]
  have := List.length_pos_of_ne_nil htail
  omega

/-- **A framed text is one line iff nothing in it comes after a terminator.** A text with a line
break inside is two lines to the one who reads it. -/
theorem splitLines_frameLine_iff (hterm : isTerminator terminator = true)
    (hc : isTerminator c = false) :
    (∃ l, (splitLines (frameLine terminator (c :: s))).1 = [l]) ↔ SingleLine (c :: s) := by
  constructor
  · rintro ⟨l, hl⟩
    by_contra h
    have := splitLines_frameLine_length hterm hc h
    rw [hl, List.length_singleton] at this
    omega
  · exact fun h => ⟨_, congrArg Prod.fst (splitLines_frameLine hterm hc h)⟩

end Frame

end Convers
