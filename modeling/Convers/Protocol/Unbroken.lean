import Convers.Protocol.HostCommandCodec
import Convers.Protocol.LineStream

/-!
# Texts without line breaks

A link carries lines, so a text with a line break in it would be read as two, and the second of
them could be anything, another command included. No check is made where a command is written:
what keeps the lines whole is that no text a command is made of has a line break
(`Convers.IsUnbroken`), and that is so because the texts come off a line themselves
(`Convers.HostCommandCodec.unbroken_parseBody`).

A list of such commands is read as they were written, one line for each
(`Convers.HostCommandCodec.splitLines_frames`), and no line that is read has a line break
(`Convers.HostCommandCodec.isUnbroken_of_mem_feedReads`).
-/

namespace Convers

/-- No line break is in it. -/
def IsUnbroken (t : Text) : Prop := ∀ c ∈ t, isTerminator c = false

instance (t : Text) : Decidable (IsUnbroken t) :=
  inferInstanceAs (Decidable (∀ c ∈ t, isTerminator c = false))

namespace IsUnbroken

variable {s t : Text}

theorem of_subset (h : IsUnbroken t) (hs : s ⊆ t) : IsUnbroken s := fun c hc => h c (hs hc)

@[simp] theorem nil : IsUnbroken [] := by rintro _ ⟨⟩

@[simp] theorem append_iff : IsUnbroken (s ++ t) ↔ IsUnbroken s ∧ IsUnbroken t :=
  List.forall_mem_append

theorem append (hs : IsUnbroken s) (ht : IsUnbroken t) : IsUnbroken (s ++ t) :=
  append_iff.mpr ⟨hs, ht⟩

theorem dropWhile (h : IsUnbroken t) (p : Char → Bool) : IsUnbroken (t.dropWhile p) :=
  h.of_subset (List.dropWhile_subset p)

theorem takeWhile (h : IsUnbroken t) (p : Char → Bool) : IsUnbroken (t.takeWhile p) :=
  h.of_subset (List.takeWhile_subset p)

theorem trim (h : IsUnbroken t) : IsUnbroken (trim t) :=
  (h.dropWhile _).of_subset (List.rdropWhile_prefix _ _).subset

theorem trimStart (h : IsUnbroken t) : IsUnbroken (trimStart t) := h.dropWhile _

theorem toUpperInvariant (h : IsUnbroken t) : IsUnbroken (toUpperInvariant t) := by
  intro c hc
  obtain ⟨d, hd, rfl⟩ := List.mem_map.mp hc
  exact (isTerminator_toUpperChar d).trans (h d hd)

end IsUnbroken

theorem isUnbroken_decimal (n : ℤ) : IsUnbroken (decimal n) :=
  fun c hc => (clean_decimal n c hc).1

namespace HostCommand

/-- The texts of a command. -/
def texts : HostCommand → List Text
  | hostUser user host _ _ _ text _ => [user, host, text]
  | hostChannelMessage user _ text => [user, text]
  | hostUserMessage source target text => [source, target, text]
  | hostUserData user host text => [user, host, text]
  | hostInvite source user _ => [source, user]
  | hostPing | hostPong _ => []
  | hostHandshake hostname software _ => [hostname, software]
  | hostTopic user host _ _ text => [user, host, text]
  | hostMode _ options => [options]
  | hostOper fromName _ user => [fromName, user]
  | hostAway user host _ text => [user, host, text]
  | hostDest host _ software => [host, software]
  | hostRoute dest user _ => [dest, user]
  | hostSysInfo user host => [user, host]
  | hostLoop detail => [detail]
  | hostExtendedCommand user commandName parameters => [user, commandName, parameters]
  | hostHelp user commandName => [user, commandName]
  | hostUserAdd user host nickname _ text => [user, host, nickname, text]
  | unknownHostCommand verb body => [verb, body]

/-- No text of the command has a line break. -/
def Unbroken (c : HostCommand) : Prop := ∀ t ∈ c.texts, IsUnbroken t

instance (c : HostCommand) : Decidable c.Unbroken :=
  inferInstanceAs (Decidable (∀ t ∈ c.texts, IsUnbroken t))

/-! ### What is written -/

theorem isUnbroken_field {t : Text} (h : IsUnbroken t) : IsUnbroken (field t) := by
  rintro c (_ | ⟨_, hc⟩)
  · rfl
  · exact h c hc

theorem isUnbroken_optionalField {t : Text} (h : IsUnbroken t) : IsUnbroken (optionalField t) := by
  rw [optionalField]
  split
  · exact .nil
  · exact isUnbroken_field h

theorem isUnbroken_orAt {t : Text} (h : IsUnbroken t) : IsUnbroken (orAt t) := by
  rw [orAt]
  split
  · decide
  · exact h

theorem isUnbroken_orUnknown {t : Text} (h : IsUnbroken t) : IsUnbroken (orUnknown t) := by
  rw [orUnknown]
  split
  · decide
  · exact h

/-- A number field. -/
theorem isUnbroken_number (n : ℤ) : IsUnbroken (field (decimal n)) :=
  isUnbroken_field (isUnbroken_decimal n)

/-- The body of an unbroken command is unbroken. -/
theorem isUnbroken_emit {c : HostCommand} (h : c.Unbroken) : IsUnbroken c.emit := by
  have hn := isUnbroken_number
  cases c <;> simp only [Unbroken, texts, List.forall_mem_cons] at h
  case hostUser user host timestamp source target text isObserver =>
    obtain ⟨huser, hhost, htext, -⟩ := h
    exact ((((huser.append (isUnbroken_field hhost)).append (hn _)).append (hn _)).append
      (hn _)).append (isUnbroken_field (isUnbroken_orAt htext))
  case hostChannelMessage user channel text =>
    obtain ⟨huser, htext, -⟩ := h
    exact (huser.append (hn _)).append (isUnbroken_field htext)
  case hostUserMessage source target text =>
    obtain ⟨hsource, htarget, htext, -⟩ := h
    exact (hsource.append (isUnbroken_field htarget)).append (isUnbroken_field htext)
  case hostUserData user host text =>
    obtain ⟨huser, hhost, htext, -⟩ := h
    exact (huser.append (isUnbroken_field hhost)).append (isUnbroken_field (isUnbroken_orAt htext))
  case hostInvite source user channel =>
    obtain ⟨hsource, huser, -⟩ := h
    exact (hsource.append (isUnbroken_field huser)).append (hn _)
  case hostPing => exact .nil
  case hostPong time => exact isUnbroken_decimal _
  case hostHandshake hostname software facilities =>
    obtain ⟨hhostname, hsoftware, -⟩ := h
    have hletters : IsUnbroken (formatFacilities facilities) :=
      fun d hd => (mem_formatFacilities hd).2.1
    exact (hhostname.append (isUnbroken_field (isUnbroken_orUnknown hsoftware))).append
      (isUnbroken_optionalField hletters)
  case hostTopic user host time channel text =>
    obtain ⟨huser, hhost, htext, -⟩ := h
    exact (((huser.append (isUnbroken_field hhost)).append (hn _)).append (hn _)).append
      (isUnbroken_optionalField htext)
  case hostMode channel options =>
    exact (isUnbroken_decimal _).append (isUnbroken_field h.1)
  case hostOper fromName channel user =>
    obtain ⟨hname, huser, -⟩ := h
    exact (hname.append (hn _)).append (isUnbroken_field huser)
  case hostAway user host time text =>
    obtain ⟨huser, hhost, htext, -⟩ := h
    exact ((huser.append (isUnbroken_field hhost)).append (hn _)).append
      (isUnbroken_optionalField htext)
  case hostDest host time software =>
    obtain ⟨hhost, hsoftware, -⟩ := h
    exact (hhost.append (hn _)).append (isUnbroken_optionalField hsoftware)
  case hostRoute dest user ttl =>
    obtain ⟨hdest, huser, -⟩ := h
    exact (hdest.append (isUnbroken_field huser)).append (hn _)
  case hostSysInfo user host | hostHelp user host =>
    obtain ⟨huser, hhost, -⟩ := h
    exact huser.append (isUnbroken_field hhost)
  case hostLoop detail => exact h.1
  case hostExtendedCommand user commandName parameters =>
    obtain ⟨huser, hname, hparameters, -⟩ := h
    exact (huser.append (isUnbroken_field hname)).append (isUnbroken_optionalField hparameters)
  case hostUserAdd user host nickname channel text =>
    obtain ⟨huser, hhost, hnickname, htext, -⟩ := h
    exact (((huser.append (isUnbroken_field hhost)).append (isUnbroken_field hnickname)).append
      (hn _)).append (isUnbroken_optionalField htext)
  case unknownHostCommand verb body => exact h.2.1

theorem isUnbroken_verb {c : HostCommand} (h : c.Unbroken) : IsUnbroken c.verb := by
  rcases c.verb_mem_modelledVerbs with hverb | ⟨verb, body, rfl⟩
  · obtain ⟨-, hcapital⟩ := capital_of_mem_modelledVerbs hverb
    intro d hd
    obtain ⟨hlow, -⟩ := hcapital d hd
    rw [Bool.eq_false_iff]
    intro hterm
    rcases (by simpa [isTerminator] using hterm : d = cr ∨ d = lf) with rfl | rfl
    · exact absurd hlow (by decide)
    · exact absurd hlow (by decide)
  · exact h verb (by simp [texts])

end HostCommand

namespace HostCommandCodec

open HostCommand ConversTokenizer

/-- **A line with an unbroken command is one line.** The writer puts the texts there as they are, so
a break in one of them would be one of the line. -/
theorem isUnbroken_format {c : HostCommand} (h : c.Unbroken) : IsUnbroken (format c) := by
  have hprefix : IsUnbroken hostCommandPrefix := by decide
  rw [format]
  split
  · exact hprefix.append (isUnbroken_verb h)
  · exact hprefix.append ((isUnbroken_verb h).append (isUnbroken_field (isUnbroken_emit h)))

/-- A command is never an empty line. -/
theorem format_ne_nil (c : HostCommand) : format c ≠ [] := by
  rw [format]
  exact fun hnil => absurd (List.append_eq_nil_iff.mp hnil).1 (by decide)

/-! ### What is read -/

theorem isUnbroken_next {t : ConversTokenizer} (h : IsUnbroken t.line) :
    IsUnbroken t.next.1 ∧ IsUnbroken t.next.2.line :=
  ⟨(h.dropWhile _).takeWhile _, (h.dropWhile _).dropWhile _⟩

/-- **Every reader** makes an unbroken command of an unbroken line. The fields of a command are
pieces of the line it is read off. -/
theorem unbroken_reader {reader : Text × (ConversTokenizer → HostCommand)}
    (hreader : reader ∈ readers) {t : ConversTokenizer} (h : IsUnbroken t.line) :
    (reader.2 t).Unbroken := by
  have hrest : IsUnbroken t.rest := h.dropWhile _
  obtain ⟨h₁, hr₁⟩ := isUnbroken_next h
  obtain ⟨h₂, hr₂⟩ := isUnbroken_next hr₁
  obtain ⟨h₃, hr₃⟩ := isUnbroken_next hr₂
  obtain ⟨-, hr₄⟩ := isUnbroken_next hr₃
  obtain ⟨-, hr₅⟩ := isUnbroken_next hr₄
  have hrest₁ : IsUnbroken t.next.2.rest := hr₁.dropWhile _
  have hrest₂ : IsUnbroken t.next.2.next.2.rest := hr₂.dropWhile _
  have hrest₃ : IsUnbroken t.next.2.next.2.next.2.rest := hr₃.dropWhile _
  have hrest₄ : IsUnbroken t.next.2.next.2.next.2.next.2.rest := hr₄.dropWhile _
  have hrest₅ : IsUnbroken t.next.2.next.2.next.2.next.2.next.2.rest := hr₅.dropWhile _
  have hnil := List.forall_mem_nil IsUnbroken
  simp only [readers, List.mem_cons, List.not_mem_nil, or_false] at hreader
  rcases hreader with rfl | rfl | rfl | rfl | rfl | rfl | rfl | rfl | rfl | rfl | rfl | rfl | rfl |
    rfl | rfl | rfl | rfl | rfl | rfl | rfl <;>
    simp only [Unbroken, parseUser, parseChannelMessage, parseUserMessage, parseUserData,
      parseInvite, parseHandshake, parseTopic, parseMode, parseOper, parseAway, parseDest,
      parseRoute, parseSysInfo, parseExtendedCommand, parseHelp, parseUserAdd, nextInt, nextLong,
      texts, List.forall_mem_cons]
  -- one bullet a verb, in the order of the table
  · exact ⟨h₁, h₂, hrest₅, hnil⟩
  · exact ⟨h₁, h₂, hrest₅, hnil⟩
  · exact ⟨h₁, hrest₂, hnil⟩
  · exact ⟨h₁, h₂, hrest₂, hnil⟩
  · refine ⟨h₁, h₂, ?_, hnil⟩
    split
    · exact .nil
    · exact hrest₂
  · exact ⟨h₁, h₂, hnil⟩
  · exact hnil
  · exact hnil
  · exact ⟨h₁, isUnbroken_orUnknown h₂, hnil⟩
  · exact ⟨h₁, h₂, hrest₄, hnil⟩
  · exact ⟨hrest₁, hnil⟩
  · exact ⟨h₁, h₃, hnil⟩
  · exact ⟨h₁, h₂, hrest₃, hnil⟩
  · exact ⟨h₁, hrest₂, hnil⟩
  · exact ⟨h₁, h₂, hnil⟩
  · exact ⟨h₁, h₂, hnil⟩
  · exact ⟨hrest, hnil⟩
  · exact ⟨h₁, h₂, hrest₂, hnil⟩
  · exact ⟨h₁, h₂, hnil⟩
  · exact ⟨h₁, h₂, h₃, hrest₄, hnil⟩

/-- **A command that is read off a line is unbroken.** What a hub hears so never makes it write more
lines than it means to. -/
theorem unbroken_parseBody {body : Text} (h : IsUnbroken body) : (parseBody body).Unbroken := by
  obtain ⟨hverb, hleft⟩ := isUnbroken_next (t := ⟨body⟩) h
  rw [parseBody]
  dsimp only
  split
  · rename_i reader hreader
    exact unbroken_reader (List.mem_of_find?_eq_some hreader) hleft
  · exact List.forall_mem_cons.mpr
      ⟨hverb.toUpperInvariant, List.forall_mem_singleton.mpr (hleft.dropWhile _)⟩

theorem unbroken_of_parsed {line : Text} (h : IsUnbroken line) {c : HostCommand}
    (hc : (stripPrefix line).map parseBody = some c) : c.Unbroken := by
  obtain ⟨body, hbody, rfl⟩ := Option.map_eq_some_iff.mp hc
  refine unbroken_parseBody (h.of_subset ?_)
  rw [stripPrefix] at hbody
  split at hbody
  · cases hbody
    exact List.drop_subset _ _
  · split at hbody
    · cases hbody
      exact List.drop_subset _ _
    · cases hbody

/-! ### Lines on the wire -/

/-- What a line is for the other end. -/
def lineOf (c : HostCommand) : Text := decode (encode (format c))

theorem terminate_of_isUnbroken {line : Text} (h : IsUnbroken line) :
    terminate lf line = line ++ [lf] := by
  rw [terminate]
  rcases hlast : line.getLast? with _ | c
  · rfl
  · dsimp only
    rw [h c (List.mem_of_getLast? hlast), if_neg Bool.false_ne_true]

/-- A line that is framed is split off again. -/
theorem splitLines_frameLine {line : Text} (h : IsUnbroken line) (hne : line ≠ [])
    (bs : List UInt8) :
    splitLines (frameLine lf line ++ bs) =
      (decode (encode line) :: (splitLines bs).1, (splitLines bs).2) := by
  have htext : ∀ b ∈ encode line, isTerminatorByte b = false := by
    intro b hb
    obtain ⟨c, hc, hb⟩ := List.mem_flatMap.mp hb
    exact isTerminatorByte_of_mem_encodeChar (h c hc) hb
  have hlength : (encode line).length ≠ 0 := by
    obtain ⟨c, line, rfl⟩ := List.exists_cons_of_ne_nil hne
    rw [encode_cons, List.length_append]
    have := List.length_pos_of_ne_nil (encodeChar_ne_nil c)
    omega
  rw [frameLine, terminate_of_isUnbroken h, encode_append, List.append_assoc, splitLines,
    splitLinesLoop_append htext, List.nil_append]
  exact splitLinesLoop_dispatch rfl hlength bs

/-- **A line off a link has no line break**, however the reads cut it. -/
theorem isUnbroken_of_mem_feedReads (reads : List (List UInt8)) :
    ∀ line ∈ (LineAssembler.fresh.feedReads reads).2, IsUnbroken line := by
  suffices h : ∀ (bs : List UInt8) (a : LineAssembler), IsUnbroken a.current →
      ∀ line ∈ (a.feed bs).2, IsUnbroken line by
    rw [LineAssembler.feedReads_eq]
    exact h _ _ .nil
  intro bs
  -- the induction is on the bytes, with any line so far that is unbroken
  induction bs with
  | nil => rintro a - _ ⟨⟩
  | cons b bs ih =>
    intro a ha
    rw [LineAssembler.feed]
    split
    · exact ih _ ha
    · split
      · exact List.forall_mem_cons.mpr ⟨ha, ih ⟨[], true⟩ .nil⟩
      · rename_i hcr
        split
        · exact List.forall_mem_cons.mpr ⟨ha, ih ⟨[], false⟩ .nil⟩
        · rename_i hlf
          have hb : isTerminatorByte b = false := by simp [isTerminatorByte, hcr, hlf]
          refine ih ⟨a.current ++ [decodeByte b], false⟩ (ha.append ?_)
          exact List.forall_mem_singleton.mpr ((isTerminator_decodeByte b).trans hb)

/-- **Unbroken commands are read one by one**, as they were written and none else. This is what
becomes of a whole queue of commands on the wire. -/
theorem splitLines_frames {commands : List HostCommand} (h : ∀ c ∈ commands, c.Unbroken) :
    splitLines (commands.flatMap fun c => frameLine lf (format c)) = (commands.map lineOf, []) := by
  induction commands with
  | nil => rfl
  | cons c commands ih =>
    rw [List.flatMap_cons, splitLines_frameLine (isUnbroken_format (h c List.mem_cons_self))
      (format_ne_nil c), ih fun d hd => h d (List.mem_cons_of_mem _ hd)]
    rfl

end HostCommandCodec

end Convers
