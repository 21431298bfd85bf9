import Convers.Core.Presence
import Convers.Host.HostBridge

/-!
# One event, one line

A text typed by a user goes to the links as the last field of a command, and a
command is one line. Whether the receiving node reads it as one line depends on the
text: nothing between the session and the wire takes a terminator out of it.

`Convers.OneCommand` says what should hold of every command sent: the receiver
splits its bytes into exactly one line, and reads that line as a command of the same
verb. It holds exactly of the commands that are `Convers.SingleLine`
(`Convers.oneCommand_iff`), because the verb comes first; and of the commands of an
event exactly when its names have no terminator and nothing in its text comes after
one (`Convers.oneCommand_advance_iff`).
-/

namespace Convers

open HostCommandCodec HostCommand

/-- A text without line terminators. -/
def NoTerminator (t : Text) : Prop := ∀ c ∈ t, isTerminator c = false

instance (t : Text) : Decidable (NoTerminator t) :=
  inferInstanceAs (Decidable (∀ c ∈ t, isTerminator c = false))

/-! ### Single lines, field by field -/

/-- Terminators are stripped from the end of the last field. -/
theorem lineBody_append_field (p t : Text) :
    lineBody (p ++ field t) = p ++ field (lineBody t) := by
  have hblank : isTerminator ' ' = false := by decide
  simp only [lineBody, List.rdropWhile, field, List.reverse_append, List.reverse_cons,
    List.append_assoc]
  rw [List.dropWhile_append]
  split
  · rename_i h
    rw [List.isEmpty_iff] at h
    rw [h, List.singleton_append, List.dropWhile_cons_of_neg (by simp [hblank])]
    simp
  · simp

/-- **A line is single iff what comes before its last field has no terminator and the field is
single.** The fields before the last one are names, and the last one is what was typed. -/
theorem singleLine_append_field (p t : Text) :
    SingleLine (p ++ field t) ↔ NoTerminator p ∧ SingleLine t := by
  have hblank : isTerminator ' ' = false := by decide
  rw [SingleLine, lineBody_append_field, SingleLine, NoTerminator]
  simp only [field, List.mem_append, List.mem_cons]
  constructor
  · intro h
    exact ⟨fun c hc => h c (Or.inl hc), fun c hc => h c (Or.inr (Or.inr hc))⟩
  · rintro ⟨hp, ht⟩ c (hc | rfl | hc)
    · exact hp c hc
    · exact hblank
    · exact ht c hc

theorem noTerminator_append {s t : Text} :
    NoTerminator (s ++ t) ↔ NoTerminator s ∧ NoTerminator t := List.forall_mem_append

theorem noTerminator_field {t : Text} : NoTerminator (field t) ↔ NoTerminator t := by
  have hblank : isTerminator ' ' = false := by decide
  simp [NoTerminator, field, hblank]

theorem noTerminator_decimal (n : ℤ) : NoTerminator (decimal n) :=
  fun c hc => (clean_decimal n c hc).1

theorem singleLine_decimal (n : ℤ) : SingleLine (decimal n) :=
  SingleLine.of_forall (noTerminator_decimal n)

theorem singleLine_nil : SingleLine [] := SingleLine.of_forall (by simp)

theorem singleLine_orAt (t : Text) : SingleLine (orAt t) ↔ SingleLine t := by
  rcases eq_or_ne t [] with rfl | h
  · exact ⟨fun _ => singleLine_nil, fun _ => by decide⟩
  · rw [orAt, if_neg (by simpa [List.length_eq_zero_iff] using h)]

/-- An optional text behind a number. -/
theorem singleLine_append_optionalField (p : Text) (n : ℤ) (t : Text) :
    SingleLine (p ++ field (decimal n) ++ optionalField t) ↔ NoTerminator p ∧ SingleLine t := by
  rcases eq_or_ne t [] with rfl | h
  · have h0 : optionalField [] = [] := rfl
    rw [h0, List.append_nil, singleLine_append_field]
    exact and_congr_right fun _ => ⟨fun _ => singleLine_nil, fun _ => singleLine_decimal n⟩
  · rw [optionalField, if_neg (by simpa [List.length_eq_zero_iff] using h),
      singleLine_append_field, noTerminator_append, noTerminator_field]
    exact and_congr_left fun _ => and_iff_left (noTerminator_decimal n)

/-! ### What the receiver makes of a command -/

/-- What every command sent should be for its receiver, whichever terminator frames
it and whichever splitter cuts it: exactly one line, read as a command of its verb. -/
def OneCommand (c : HostCommand) : Prop :=
  ∀ terminator, isTerminator terminator = true →
    ∃ line received,
      (splitLines (frameLine terminator (format c))).1 = [line] ∧
      LineAssembler.dropEmpty (LineAssembler.fresh.feed (frameLine terminator (format c))).2 =
        [line] ∧
      tryParse line = .ok (some received) ∧ received.verb = c.verb

/-- A reader makes a command of its verb. -/
theorem verb_reader {entry : Text × (ConversTokenizer → HostCommand)} (h : entry ∈ readers)
    (t : ConversTokenizer) : (entry.2 t).verb = entry.1 := by
  simp only [readers, List.mem_cons, List.not_mem_nil, or_false] at h
  rcases h with rfl | rfl | rfl | rfl | rfl | rfl | rfl | rfl | rfl | rfl | rfl | rfl | rfl | rfl |
    rfl | rfl | rfl | rfl | rfl | rfl <;> rfl

/-- **The verb of a parsed body is its first word**, upper-cased. A verb that is read is so never in
small letters. -/
theorem verb_parseBody (body : Text) :
    (parseBody body).verb = toUpperInvariant ((words body).headD []) := by
  have hverb := ConversTokenizer.next_fst ⟨body⟩
  simp only [parseBody, hverb]
  split
  · rename_i reader hfind
    rw [verb_reader (List.mem_of_find?_eq_some hfind)]
    exact of_decide_eq_true (List.find?_some hfind :)
  · rfl

/-- What precedes the body of a modelled command is plain. -/
theorem clean_head {verb : Text} (hverb : verb ∈ modelledVerbs) :
    Clean (hostCommandPrefix ++ verb) := by
  have hpre : Clean hostCommandPrefix := by
    simp [Clean, hostCommandPrefix, isTerminator, isLatin1, cr, lf]
  refine hpre.append fun c hc => ?_
  obtain ⟨hlo, hhi⟩ := (capital_of_mem_modelledVerbs hverb).2 c hc
  refine ⟨?_, decide_eq_true (by omega)⟩
  rw [Bool.eq_false_iff]
  intro hterm
  rcases (by simpa [isTerminator] using hterm : c = cr ∨ c = lf) with rfl | rfl <;>
    exact absurd hlo (by decide)

/-- The body of the line of a command starts with its verb, as a word. -/
theorem lineBody_format {c : HostCommand} (hverb : c.verb ∈ modelledVerbs) :
    ∃ s, lineBody (format c) = hostCommandPrefix ++ (c.verb ++ s) ∧
      (s = [] ∨ ∃ t, s = field t) := by
  rw [format_eq, ← List.append_assoc, optionalField]
  split
  · refine ⟨[], ?_, Or.inl rfl⟩
    rw [List.append_nil, lineBody_eq_self fun d hd => (clean_head hverb d hd).1, List.append_nil]
  · refine ⟨field (lineBody c.emit), ?_, Or.inr ⟨_, rfl⟩⟩
    rw [lineBody_append_field, List.append_assoc]

/-- A line that begins with the prefix and a verb is read as a command of the verb,
whatever the rest of it has become on the wire. -/
theorem tryParse_decode {verb s : Text} (hverb : verb ∈ modelledVerbs)
    (hs : s = [] ∨ ∃ t, s = field t) :
    ∃ received, tryParse (decode (encode (hostCommandPrefix ++ (verb ++ s)))) =
      .ok (some received) ∧ received.verb = verb := by
  have hclean := clean_head hverb
  have hhead : decode (encode (hostCommandPrefix ++ (verb ++ s))) =
      hostCommandPrefix ++ (verb ++ decode (encode s)) := by
    rw [← List.append_assoc, encode_append, decode_append,
      decode_encode fun c hc => (hclean c hc).2, List.append_assoc]
  have hrest : ∀ c ∈ (decode (encode s)).head?, isSpace c = true := by
    rcases hs with rfl | ⟨t, rfl⟩
    · simp
    · have hblank : decode (encodeChar ' ') = [' '] := by decide
      intro c hc
      rw [field, encode_cons, decode_append, hblank] at hc
      rw [(by simpa using hc : ' ' = c).symm]
      decide
  obtain ⟨hne, hcap⟩ := capital_of_mem_modelledVerbs hverb
  have htok : IsToken verb := by
    refine ⟨hne, fun c hc => ?_⟩
    rw [Bool.eq_false_iff]
    intro hsp
    have hlo := (hcap c hc).1
    simp only [isSpace, Bool.or_eq_true, decide_eq_true_eq] at hsp
    rcases hsp with ((((rfl | rfl) | rfl) | rfl) | rfl) | rfl <;> exact absurd hlo (by decide)
  refine ⟨parseBody (verb ++ decode (encode s)), ?_, ?_⟩
  · rw [hhead, tryParse_eq, stripPrefix_hostCommandPrefix]
    rfl
  · rw [verb_parseBody, words_token htok hrest, List.headD_cons]
    exact toUpperInvariant_eq_self fun c hc => by
      have := (hcap c hc).2
      omega

/-- **A command is one command for its receiver iff its line is single.** Nothing is left of the
receiver then but its splitter. -/
theorem oneCommand_iff {c : HostCommand} (hverb : c.verb ∈ modelledVerbs) :
    OneCommand c ↔ SingleLine (format c) := by
  obtain ⟨s, hs⟩ : ∃ s, format c = '/' :: s := by
    rw [format_eq, hostCommandPrefix]
    exact ⟨_, rfl⟩
  have hslash : isTerminator '/' = false := by decide
  constructor
  · intro h
    obtain ⟨line, received, hsplit, -⟩ := h lf (by decide)
    rw [hs] at hsplit ⊢
    exact (splitLines_frameLine_iff (by decide) hslash).mp ⟨line, hsplit⟩
  · intro h terminator hterm
    have hsplit : (splitLines (frameLine terminator (format c))).1 =
        [decode (encode (lineBody (format c)))] := by
      rw [hs] at h ⊢
      rw [splitLines_frameLine hterm hslash h]
    obtain ⟨t, ht, hstop⟩ := lineBody_format hverb
    obtain ⟨received, hparse, hv⟩ := tryParse_decode hverb hstop
    refine ⟨_, received, hsplit, ?_, ht ▸ hparse, hv⟩
    rw [LineAssembler.feed_eq_splitLines, hsplit]

/-! ### The commands of an event -/

/-- The names and the text of a command that carries a user's text. -/
def userText : HostCommand → Option (List Text × Text)
  | .hostUser user host _ _ _ text _ => some ([user, host], text)
  | .hostChannelMessage user _ text => some ([user], text)
  | .hostUserMessage source target text => some ([source, target], text)
  | .hostUserData user host text => some ([user, host], text)
  | .hostTopic user host _ _ text => some ([user, host], text)
  | .hostAway user host _ text => some ([user, host], text)
  | _ => none

/-- Names that are plain, and a text that is one line. -/
def Plain (names : List Text) (text : Text) : Prop :=
  (∀ name ∈ names, NoTerminator name) ∧ SingleLine text

theorem field_append (s t : Text) : field (s ++ t) = field s ++ t := rfl

/-- **The line of a user's text is single iff its names are plain and the text is one line.**
Whether a command is one can so be told from the fields it is made of. -/
theorem oneCommand_userText {c : HostCommand} {names : List Text} {text : Text}
    (h : userText c = some (names, text)) : OneCommand c ↔ Plain names text := by
  have hverb : c.verb ∈ modelledVerbs := by
    rcases verb_mem_modelledVerbs c with hv | ⟨verb, body, rfl⟩
    · exact hv
    · cases h
  have hhead : NoTerminator (hostCommandPrefix ++ c.verb) :=
    fun d hd => (clean_head hverb d hd).1
  have hformat : c.emit ≠ [] → format c = hostCommandPrefix ++ c.verb ++ field c.emit := by
    intro ht
    rw [format_eq, optionalField, if_neg (by simpa [List.length_eq_zero_iff] using ht),
      List.append_assoc]
  obtain ⟨hpre, hv⟩ := noTerminator_append.mp hhead
  rw [oneCommand_iff hverb]
  cases c with
  | hostUser user host timestamp fromChannel toChannel text isObserver =>
    cases h
    rw [hformat (by simp [emit, field])]
    simp only [emit, field_append, ← List.append_assoc]
    rw [singleLine_append_field, singleLine_orAt]
    simp [noTerminator_append, noTerminator_field, noTerminator_decimal, hpre, hv, Plain, and_assoc]
  | hostChannelMessage user channel text =>
    cases h
    rw [hformat (by simp [emit, field])]
    simp only [emit, field_append, ← List.append_assoc]
    rw [singleLine_append_field]
    simp [noTerminator_append, noTerminator_field, noTerminator_decimal, hpre, hv, Plain]
  | hostUserMessage source target text =>
    cases h
    rw [hformat (by simp [emit, field])]
    simp only [emit, field_append, ← List.append_assoc]
    rw [singleLine_append_field]
    simp [noTerminator_append, noTerminator_field, hpre, hv, Plain, and_assoc]
  | hostUserData user host text =>
    cases h
    rw [hformat (by simp [emit, field])]
    simp only [emit, field_append, ← List.append_assoc]
    rw [singleLine_append_field, singleLine_orAt]
    simp [noTerminator_append, noTerminator_field, hpre, hv, Plain, and_assoc]
  | hostTopic user host time channel text =>
    cases h
    rw [hformat (by simp [emit, field])]
    simp only [emit, field_append, ← List.append_assoc]
    rw [singleLine_append_optionalField]
    simp [noTerminator_append, noTerminator_field, noTerminator_decimal, hpre, hv, Plain, and_assoc]
  | hostAway user host time text =>
    cases h
    rw [hformat (by simp [emit, field])]
    simp only [emit, field_append, ← List.append_assoc]
    rw [singleLine_append_optionalField]
    simp [noTerminator_append, noTerminator_field, hpre, hv, Plain, and_assoc]
  | _ => cases h

/-- The names and the text that an event puts on a line. -/
def typedText (h : Hub) : ConversEvent → Option (List Text × Text)
  | .localSay sessionId text => (h.sessions.find? sessionId).map fun s => ([s.callsign], text)
  | .localPrivateMessage sessionId toUser text => (h.sessions.find? sessionId).map fun s =>
    ([s.callsign, Callsigns.normalize toUser], text)
  | .localSetTopic sessionId topic => (h.sessions.find? sessionId).map fun s =>
    ([s.callsign, h.hostName], trim topic)
  | .localSetAway sessionId away => (h.sessions.find? sessionId).map fun s =>
    ([s.callsign, h.hostName], trim away)
  | .localSetPersonal sessionId personal => (h.sessions.find? sessionId).map fun s =>
    ([s.callsign, h.hostName], Hub.makePersonalConsistent personal)
  | .localLeave sessionId reason => (h.sessions.find? sessionId).map fun s =>
    ([s.callsign, h.hostName], reason)
  | _ => none

/-- The events by which a user types a text. -/
def isTyped : ConversEvent → Bool
  | .localSay .. | .localPrivateMessage .. | .localSetTopic .. => true
  | .localSetAway .. | .localSetPersonal .. | .localLeave .. => true
  | _ => false

/-- The commands of some actions. -/
def commandsOf (actions : List ConversAction) : List HostCommand :=
  actions.filterMap HostBridge.toHostCommand

/-- Deliveries are no commands. -/
theorem commandsOf_eq_nil {actions : List ConversAction} (h : Hub.Deliveries actions) :
    commandsOf actions = [] := by
  refine List.filterMap_eq_nil_iff.mpr fun a ha => ?_
  have hdel := h a ha
  cases a <;> first | rfl | cases hdel

/-- **What an event that is announced sends**: one command, that of the announcement. There is so
one line to look at for each event. -/
theorem commandsOf_advance {h : Hub} (now : DateTimeOffset) {e : ConversEvent}
    (hann : h.announces e = true) :
    ∃ send, h.announcement now e = some send ∧
      commandsOf (h.advance now e).actions = (HostBridge.toHostCommand send).toList := by
  obtain ⟨before, send, after, hsend, hactions, hbefore, hafter, -⟩ :=
    Hub.advance_of_announces now hann
  refine ⟨send, hsend, ?_⟩
  rw [hactions, commandsOf, List.filterMap_append, List.filterMap_cons]
  have hb : before.filterMap HostBridge.toHostCommand = [] := commandsOf_eq_nil hbefore
  have ha : after.filterMap HostBridge.toHostCommand = [] := commandsOf_eq_nil hafter
  rw [hb, ha]
  rcases HostBridge.toHostCommand send with _ | c
  · rfl
  · rfl

/-- The announcement of a typed text is a command with that text. -/
theorem userText_announcement {h : Hub} (now : DateTimeOffset) {e : ConversEvent}
    (he : isTyped e = true) {send : ConversAction} (hsend : h.announcement now e = some send) :
    ∃ c names text, HostBridge.toHostCommand send = some c ∧ userText c = some (names, text) ∧
      typedText h e = some (names, text) := by
  cases e with
  | localSay sessionId text | localPrivateMessage sessionId toUser text
  | localSetTopic sessionId topic | localSetAway sessionId away
  | localSetPersonal sessionId personal | localLeave sessionId reason =>
    simp only [Hub.announcement] at hsend
    obtain ⟨s, hs, rfl⟩ := Option.map_eq_some_iff.mp hsend
    exact ⟨_, _, _, rfl, rfl, by simp only [typedText, hs]; rfl⟩
  | _ => cases he

/-- **Every command sent for a typed event is one command for its receiver iff what the event puts
on the line is plain.** It is on the texts that are typed, and holds of every state of the hub. -/
theorem oneCommand_advance_iff (now : DateTimeOffset) (h : Hub) (e : ConversEvent)
    (he : isTyped e = true) :
    (∀ c ∈ commandsOf (h.advance now e).actions, OneCommand c) ↔
      (h.announces e = true →
        ∀ names text, typedText h e = some (names, text) → Plain names text) := by
  rcases hann : h.announces e with _ | _
  · have hlocal : e.isLocal = true := by
      cases e
      case localSay => rfl
      all_goals first | rfl | cases he
    rw [commandsOf_eq_nil (Hub.advance_of_not_announces now hlocal hann)]
    simp
  · obtain ⟨send, hsend, hcommands⟩ := commandsOf_advance now hann
    obtain ⟨c, names, text, hc, htext, htyped⟩ := userText_announcement now he hsend
    rw [hcommands, hc, htyped]
    constructor
    · rintro hall - names' text' ⟨⟩
      exact (oneCommand_userText htext).mp (hall c (by simp))
    · intro hplain c' hc'
      obtain rfl : c' = c := by simpa using hc'
      exact (oneCommand_userText htext).mpr (hplain rfl names text rfl)

/-- A moment for the examples. -/
def exampleTime : DateTimeOffset := ⟨638000000000000000, Hub.exampleMoment.ticks_le⟩

/-- A node with one user, who came over the web. -/
def exampleHub : Hub :=
  ((Hub.fresh "NODE".toList).advance exampleTime
    (.localJoin "web-M0ABC".toList "m0abc".toList 7)).hub

/-- A topic typed by the user of the example is one command. -/
theorem oneCommand_advance_topic :
    (commandsOf (exampleHub.advance exampleTime
      (.localSetTopic "web-M0ABC".toList " packet night ".toList)).actions).Forall OneCommand := by
  refine List.forall_iff_forall_mem.mpr ?_
  refine (oneCommand_advance_iff exampleTime exampleHub _ rfl).mpr fun _ names text htyped => ?_
  have htopic : typedText exampleHub (.localSetTopic "web-M0ABC".toList " packet night ".toList) =
      some (["M0ABC".toList, "NODE".toList], "packet night".toList) := by
    decide +kernel
  rw [htopic] at htyped
  cases htyped
  exact ⟨by decide +kernel, SingleLine.of_forall (by decide +kernel)⟩

/-- **A text with a carriage return in it is two commands for the receiver**, and the
second is what the user typed. -/
theorem not_oneCommand_advance_say :
    ¬∀ c ∈ commandsOf (exampleHub.advance exampleTime
      (.localSay "web-M0ABC".toList "hi\r/..LOOP NODE".toList)).actions, OneCommand c := by
  have hsent : commandsOf (exampleHub.advance exampleTime
      (.localSay "web-M0ABC".toList "hi\r/..LOOP NODE".toList)).actions =
        [.hostChannelMessage "M0ABC".toList 7 "hi\r/..LOOP NODE".toList] := by
    decide +kernel
  intro hall
  obtain ⟨line, received, hsplit, -⟩ := hall _ (by rw [hsent]; exact List.mem_singleton_self _) lf
    (by decide)
  have htwo : ((splitLines (frameLine lf (format
      (.hostChannelMessage "M0ABC".toList 7 "hi\r/..LOOP NODE".toList)))).1).length = 2 := by
    decide +kernel
  rw [hsplit] at htwo
  cases htwo

end Convers
