import Convers.Protocol.HostCommand
import Convers.Protocol.LineAssembler

/-!
# The host-command codec

`Convers.HostCommandCodec.format` writes a command behind the host prefix and
`Convers.HostCommandCodec.parse` reads a line back, by a reader per verb. The
writers and the readers agree on every command whose fields the grammar can
carry (`Convers.HostCommand.WellFormed`), up to the markers the wire puts for an
empty field (`Convers.HostCommand.received`):

* `Convers.HostCommandCodec.parse_format`: reading the formatted line gives the
  command back;
* `Convers.HostCommand.clean_emit`: the formatted line is Latin-1 and without
  terminators, so that framing and splitting give it back as one line
  (`Convers.HostCommandCodec.splitLines_frameLine_clean`).

The readers are a table by verb (`Convers.HostCommandCodec.readers`), so a verb
is dispatched by one lookup and the rest of the proof is about cursors.
-/

namespace Convers

namespace HostCommandCodec

/-- `ConversCommand.HostCommandPrefix`: a slash and the bytes `FF 80`. -/
def hostCommandPrefix : Text := ['/', '\u00ff', '\u0080']

/-- `ConversCommand.DottedHostCommandPrefix`: the spelling of the documents. -/
def dottedHostCommandPrefix : Text := ['/', '.', '.']

/-- `StripPrefix`: the body of a host command line. -/
def stripPrefix (line : Text) : Option Text :=
  if hostCommandPrefix.isPrefixOf line then some (line.drop hostCommandPrefix.length)
  else if dottedHostCommandPrefix.isPrefixOf line then
    some (line.drop dottedHostCommandPrefix.length)
  else none

/-! ### The readers -/

open HostCommand ConversTokenizer

/-- `ParseUser`, of `USER` and `OBSV`. -/
def parseUser (isObserver : Bool) (t : ConversTokenizer) : HostCommand :=
  let (user, t) := t.next
  let (host, t) := t.next
  let (ts, t) := t.nextLong 0
  let (fromChan, t) := t.nextInt 0
  let (toChan, t) := t.nextInt 0
  hostUser user host ts fromChan toChan t.rest isObserver

/-- `ParseChannelMessage`. -/
def parseChannelMessage (t : ConversTokenizer) : HostCommand :=
  let (user, t) := t.next
  let (channel, t) := t.nextInt 0
  hostChannelMessage user channel t.rest

/-- `ParseUserMessage`. -/
def parseUserMessage (t : ConversTokenizer) : HostCommand :=
  let (source, t) := t.next
  let (target, t) := t.next
  hostUserMessage source target t.rest

/-- `ParseUserData`: the empty marker is normalised away. -/
def parseUserData (t : ConversTokenizer) : HostCommand :=
  let (user, t) := t.next
  let (host, t) := t.next
  let text := t.rest
  hostUserData user host (if text = ['@'] then [] else text)

/-- `ParseInvite`. -/
def parseInvite (t : ConversTokenizer) : HostCommand :=
  let (source, t) := t.next
  let (user, t) := t.next
  let (channel, _) := t.nextInt 0
  hostInvite source user channel

/-- `ParseHandshake`. -/
def parseHandshake (t : ConversTokenizer) : HostCommand :=
  let (hostname, t) := t.next
  let (software, t) := t.next
  let (facilitiesRaw, _) := t.next
  hostHandshake hostname (orUnknown software) (parseFacilities facilitiesRaw)

/-- `ParseTopic`. -/
def parseTopic (t : ConversTokenizer) : HostCommand :=
  let (user, t) := t.next
  let (host, t) := t.next
  let (time, t) := t.nextLong 0
  let (channel, t) := t.nextInt 0
  hostTopic user host time channel t.rest

/-- `ParseMode`. -/
def parseMode (t : ConversTokenizer) : HostCommand :=
  let (channel, t) := t.nextInt 0
  hostMode channel t.rest

/-- `ParseOper`. -/
def parseOper (t : ConversTokenizer) : HostCommand :=
  let (fromName, t) := t.next
  let (channel, t) := t.nextInt 0
  let (user, _) := t.next
  hostOper fromName channel user

/-- `ParseAway`. -/
def parseAway (t : ConversTokenizer) : HostCommand :=
  let (user, t) := t.next
  let (host, t) := t.next
  let (time, t) := t.nextLong 0
  hostAway user host time t.rest

/-- `ParseDest`. -/
def parseDest (t : ConversTokenizer) : HostCommand :=
  let (host, t) := t.next
  let (time, t) := t.nextLong 0
  hostDest host time t.rest

/-- `ParseRoute`. -/
def parseRoute (t : ConversTokenizer) : HostCommand :=
  let (dest, t) := t.next
  let (user, t) := t.next
  let (ttl, _) := t.nextInt 0
  hostRoute dest user ttl

/-- `ParseSysInfo`. -/
def parseSysInfo (t : ConversTokenizer) : HostCommand :=
  let (user, t) := t.next
  let (host, _) := t.next
  hostSysInfo user host

/-- `ParseExtendedCommand`. -/
def parseExtendedCommand (t : ConversTokenizer) : HostCommand :=
  let (user, t) := t.next
  let (cmdName, t) := t.next
  hostExtendedCommand user cmdName t.rest

/-- `ParseHelp`. -/
def parseHelp (t : ConversTokenizer) : HostCommand :=
  let (user, t) := t.next
  let (cmdName, _) := t.next
  hostHelp user cmdName

/-- `ParseUserAdd`. -/
def parseUserAdd (t : ConversTokenizer) : HostCommand :=
  let (user, t) := t.next
  let (host, t) := t.next
  let (nickname, t) := t.next
  let (channel, t) := t.nextInt 0
  hostUserAdd user host nickname channel t.rest

/-- The `switch` of `Parse`: the reader of each verb. -/
def readers : List (Text × (ConversTokenizer → HostCommand)) :=
  [("USER".toList, parseUser false), ("OBSV".toList, parseUser true),
    ("CMSG".toList, parseChannelMessage), ("UMSG".toList, parseUserMessage),
    ("UDAT".toList, parseUserData), ("INVI".toList, parseInvite),
    ("PING".toList, fun _ => hostPing), ("PONG".toList, fun t => hostPong (t.nextLong 0).1),
    ("HOST".toList, parseHandshake), ("TOPI".toList, parseTopic), ("MODE".toList, parseMode),
    ("OPER".toList, parseOper), ("AWAY".toList, parseAway), ("DEST".toList, parseDest),
    ("ROUT".toList, parseRoute), ("SYSI".toList, parseSysInfo),
    ("LOOP".toList, fun t => hostLoop t.rest), ("ECMD".toList, parseExtendedCommand),
    ("HELP".toList, parseHelp), ("UADD".toList, parseUserAdd)]

/-- The verbs the program models. -/
def modelledVerbs : List Text := readers.map Prod.fst

/-- The body of `Parse`, from the text behind the prefix on. -/
def parseBody (body : Text) : HostCommand :=
  let (verbRaw, t) := next ⟨body⟩
  let verb := toUpperInvariant verbRaw
  match readers.find? (·.1 = verb) with
  | some reader => reader.2 t
  | none => unknownHostCommand verb t.rest

/-- `HostCommandCodec.Parse`. -/
def parse (line : Text) : Except Fault HostCommand :=
  match stripPrefix line with
  | none => .error .format
  | some body => .ok (parseBody body)

/-- `HostCommandCodec.TryParse`: no command on a line without the prefix. -/
def tryParse (line : Text) : Except Fault (Option HostCommand) :=
  match stripPrefix line with
  | none => .ok none
  | some _ => some <$> parse line

/-- `HostCommandCodec.Format`. -/
def format (c : HostCommand) : Text :=
  let body := c.emit
  let verbAndBody := if body.length = 0 then c.verb else c.verb ++ field body
  hostCommandPrefix ++ verbAndBody

/-- **Trying to parse a line never throws.** A malformed line of a stranger is at worst no command.
-/
theorem tryParse_eq (line : Text) : tryParse line = .ok ((stripPrefix line).map parseBody) := by
  rw [tryParse]
  rcases h : stripPrefix line with _ | body
  · rfl
  · simp only [parse, h]
    rfl

@[simp] theorem stripPrefix_hostCommandPrefix (body : Text) :
    stripPrefix (hostCommandPrefix ++ body) = some body := by
  rw [stripPrefix, if_pos (by simp), List.drop_left]

/-- A modelled verb is dispatched to its reader. -/
theorem parseBody_reader {verb s : Text} {reader : ConversTokenizer → HostCommand}
    (hverb : IsToken verb) (hupper : toUpperInvariant verb = verb) (hs : Stops s)
    (hreader : readers.find? (·.1 = verb) = some (verb, reader)) :
    parseBody (verb ++ s) = reader ⟨s⟩ := by
  simp only [parseBody, next_token hverb hs, hupper, hreader]

/-- Any other verb is kept with its body. -/
theorem parseBody_unknown {verb s : Text} (hverb : IsToken verb)
    (hupper : toUpperInvariant verb = verb) (hs : Stops s) (hnot : verb ∉ modelledVerbs) :
    parseBody (verb ++ s) = unknownHostCommand verb (rest ⟨s⟩) := by
  have hnone : readers.find? (·.1 = verb) = none := by
    rw [List.find?_eq_none]
    intro reader hmem heq
    exact hnot (List.mem_map.mpr ⟨reader, hmem, of_decide_eq_true heq⟩)
  simp only [parseBody, next_token hverb hs, hupper, hnone]

end HostCommandCodec

/-! ### What the grammar can carry -/

/-- A field the wire can carry as one token. -/
structure TokenField (t : Text) : Prop where
  isToken : IsToken t
  latin1 : ∀ c ∈ t, isLatin1 c = true

/-- A field the wire can carry as the text at the end of a line. -/
structure TextField (t : Text) : Prop where
  isFreeText : IsFreeText t
  noTerminator : ∀ c ∈ t, isTerminator c = false
  latin1 : ∀ c ∈ t, isLatin1 c = true

instance (t : Text) : Decidable (TokenField t) :=
  decidable_of_iff (IsToken t ∧ ∀ c ∈ t, isLatin1 c = true)
    ⟨fun h => ⟨h.1, h.2⟩, fun h => ⟨h.isToken, h.latin1⟩⟩

instance (t : Text) : Decidable (TextField t) :=
  decidable_of_iff (IsFreeText t ∧ (∀ c ∈ t, isTerminator c = false) ∧ ∀ c ∈ t, isLatin1 c = true)
    ⟨fun h => ⟨h.1, h.2.1, h.2.2⟩, fun h => ⟨h.isFreeText, h.noTerminator, h.latin1⟩⟩

/-- A stretch of a line: in Latin-1, without terminators. -/
def Clean (t : Text) : Prop := ∀ c ∈ t, isTerminator c = false ∧ isLatin1 c = true

theorem clean_nil : Clean [] := by simp [Clean]

theorem Clean.append {s t : Text} (hs : Clean s) (ht : Clean t) : Clean (s ++ t) := by
  intro c hc
  exact (List.mem_append.mp hc).elim (hs c) (ht c)

theorem Clean.field {t : Text} (ht : Clean t) : Clean (HostCommand.field t) := by
  intro c hc
  rcases List.mem_cons.mp hc with rfl | hc
  · decide
  · exact ht c hc

theorem Clean.optionalField {t : Text} (ht : Clean t) : Clean (HostCommand.optionalField t) := by
  rw [HostCommand.optionalField]
  split
  · exact clean_nil
  · exact ht.field

theorem Clean.orAt {t : Text} (ht : Clean t) : Clean (HostCommand.orAt t) := by
  rw [HostCommand.orAt]
  split
  · simp only [Clean, List.mem_singleton, forall_eq]
    decide
  · exact ht

theorem clean_decimal (n : ℤ) : Clean (decimal n) := by
  intro c hc
  refine ⟨?_, ?_⟩
  · rw [Bool.eq_false_iff]
    intro hterm
    exact Bool.noConfusion ((isSpace_of_mem_decimal hc).symm.trans (isSpace_of_isTerminator hterm))
  · rcases mem_decimal hc with rfl | ⟨d, hd, rfl⟩
    · decide
    · interval_cases d <;> decide

theorem TokenField.clean {t : Text} (h : TokenField t) : Clean t := by
  intro c hc
  refine ⟨?_, h.latin1 c hc⟩
  rw [Bool.eq_false_iff]
  intro hterm
  exact Bool.noConfusion ((h.isToken.2 c hc).symm.trans (isSpace_of_isTerminator hterm))

/-- The software field is written as a token. -/
theorem tokenField_orUnknown {software : Text} (h : software = [] ∨ TokenField software) :
    TokenField (HostCommand.orUnknown software) := by
  rcases h with rfl | h
  · simp only [HostCommand.orUnknown, HostCommand.unknownSoftware, List.length_nil, if_true]
    exact ⟨by simp [IsToken, isSpace], by simp [isLatin1]⟩
  · rwa [HostCommand.orUnknown, if_neg (by simpa [List.length_eq_zero_iff] using h.isToken.1)]

theorem orUnknown_orUnknown (software : Text) :
    HostCommand.orUnknown (HostCommand.orUnknown software) = HostCommand.orUnknown software := by
  simp only [HostCommand.orUnknown]
  split
  · rfl
  · rfl

theorem TextField.clean {t : Text} (h : TextField t) : Clean t :=
  fun c hc => ⟨h.noTerminator c hc, h.latin1 c hc⟩

theorem clean_formatFacilities (facilities : Facilities) : Clean (formatFacilities facilities) :=
  fun _ hc => (mem_formatFacilities hc).2

namespace HostCommand

/-- The commands the grammar can carry: each field is a token or a text, by its
place on the line. -/
def WellFormed : HostCommand → Prop
  | hostUser user host _ _ _ text _ => TokenField user ∧ TokenField host ∧ TextField text
  | hostChannelMessage user _ text => TokenField user ∧ TextField text
  | hostUserMessage source target text => TokenField source ∧ TokenField target ∧ TextField text
  | hostUserData user host text => TokenField user ∧ TokenField host ∧ TextField text
  | hostInvite source user _ => TokenField source ∧ TokenField user
  | hostPing => True
  | hostPong _ => True
  | hostHandshake hostname software _ => TokenField hostname ∧ (software = [] ∨ TokenField software)
  | hostTopic user host _ _ text => TokenField user ∧ TokenField host ∧ TextField text
  | hostMode _ options => TextField options
  | hostOper fromName _ user => TokenField fromName ∧ TokenField user
  | hostAway user host _ text => TokenField user ∧ TokenField host ∧ TextField text
  | hostDest host _ software => TokenField host ∧ TextField software
  | hostRoute dest user _ => TokenField dest ∧ TokenField user
  | hostSysInfo user host => TokenField user ∧ TokenField host
  | hostLoop detail => TextField detail
  | hostExtendedCommand user commandName parameters =>
    TokenField user ∧ TokenField commandName ∧ TextField parameters
  | hostHelp user commandName => TokenField user ∧ TokenField commandName
  | hostUserAdd user host nickname _ text =>
    TokenField user ∧ TokenField host ∧ TokenField nickname ∧ TextField text
  | unknownHostCommand verb body =>
    TokenField verb ∧ toUpperInvariant verb = verb ∧ verb ∉ HostCommandCodec.modelledVerbs ∧
      TextField body

/-- A command as it comes off the wire: the markers of an empty text and of an
empty software field stay, the marker of an empty personal text goes. -/
def received : HostCommand → HostCommand
  | hostUser user host timestamp fromChannel toChannel text isObserver =>
    hostUser user host timestamp fromChannel toChannel (orAt text) isObserver
  | hostUserData user host text => hostUserData user host (if text = ['@'] then [] else text)
  | hostHandshake hostname software facilities =>
    hostHandshake hostname (orUnknown software) facilities
  | c => c

/-- **A well-formed command is written in Latin-1 and without terminators.** So the frame of a
command is cut where the command ends, and decoded as it was. -/
theorem clean_emit {c : HostCommand} (h : c.WellFormed) : Clean c.emit := by
  have hd := clean_decimal
  cases c with
  | hostUser user host timestamp fromChannel toChannel text isObserver =>
    exact ((((h.1.clean.append h.2.1.clean.field).append (hd _).field).append (hd _).field).append
      (hd _).field).append h.2.2.clean.orAt.field
  | hostChannelMessage user channel text =>
    exact (h.1.clean.append (hd _).field).append h.2.clean.field
  | hostUserMessage source target text =>
    exact (h.1.clean.append h.2.1.clean.field).append h.2.2.clean.field
  | hostUserData user host text =>
    exact (h.1.clean.append h.2.1.clean.field).append h.2.2.clean.orAt.field
  | hostInvite source user channel => exact (h.1.clean.append h.2.clean.field).append (hd _).field
  | hostPing => exact clean_nil
  | hostPong time => exact hd _
  | hostHandshake hostname software facilities =>
    exact (h.1.clean.append (tokenField_orUnknown h.2).clean.field).append
      (clean_formatFacilities _).optionalField
  | hostTopic user host time channel text =>
    exact (((h.1.clean.append h.2.1.clean.field).append (hd _).field).append (hd _).field).append
      h.2.2.clean.optionalField
  | hostMode channel options => exact (hd _).append (TextField.clean h).field
  | hostOper fromName channel user => exact (h.1.clean.append (hd _).field).append h.2.clean.field
  | hostAway user host time text =>
    exact ((h.1.clean.append h.2.1.clean.field).append (hd _).field).append
      h.2.2.clean.optionalField
  | hostDest host time software =>
    exact (h.1.clean.append (hd _).field).append h.2.clean.optionalField
  | hostRoute dest user ttl => exact (h.1.clean.append h.2.clean.field).append (hd _).field
  | hostSysInfo user host => exact h.1.clean.append h.2.clean.field
  | hostLoop detail => exact TextField.clean h
  | hostExtendedCommand user commandName parameters =>
    exact (h.1.clean.append h.2.1.clean.field).append h.2.2.clean.optionalField
  | hostHelp user commandName => exact h.1.clean.append h.2.clean.field
  | hostUserAdd user host nickname channel text =>
    exact (((h.1.clean.append h.2.1.clean.field).append h.2.2.1.clean.field).append
      (hd _).field).append h.2.2.2.clean.optionalField
  | unknownHostCommand verb body => exact h.2.2.2.clean

/-- The modelled verbs are capital letters. -/
theorem capital_of_mem_modelledVerbs {v : Text} (hv : v ∈ HostCommandCodec.modelledVerbs) :
    v ≠ [] ∧ ∀ c ∈ v, 0x40 < c.toNat ∧ c.toNat < 0x5B := by
  have hall : HostCommandCodec.modelledVerbs.all (fun v =>
      v ≠ [] ∧ v.all (fun c => 0x40 < c.toNat ∧ c.toNat < 0x5B)) = true := by decide +kernel
  simpa using List.all_eq_true.mp hall v hv

theorem verb_mem_modelledVerbs (c : HostCommand) :
    c.verb ∈ HostCommandCodec.modelledVerbs ∨ ∃ verb body, c = unknownHostCommand verb body := by
  cases c with
  | unknownHostCommand verb body => exact Or.inr ⟨verb, body, rfl⟩
  | hostUser _ _ _ _ _ _ isObserver =>
    left
    cases isObserver <;> exact List.contains_iff_mem.mp rfl
  | _ => exact Or.inl (List.contains_iff_mem.mp rfl)

/-- **The verb of a command is a token in upper case.** The reader upper-cases what it takes for the
verb, and by this changes nothing. -/
theorem verb_spec {c : HostCommand} (h : c.WellFormed) :
    TokenField c.verb ∧ toUpperInvariant c.verb = c.verb := by
  rcases c.verb_mem_modelledVerbs with hv | ⟨verb, body, rfl⟩
  · obtain ⟨hne, hcap⟩ := capital_of_mem_modelledVerbs hv
    refine ⟨⟨⟨hne, fun d hd => ?_⟩, fun d hd => ?_⟩, toUpperInvariant_eq_self fun d hd => ?_⟩
    · obtain ⟨hlo, -⟩ := hcap d hd
      rw [Bool.eq_false_iff]
      intro hsp
      simp only [isSpace, Bool.or_eq_true, decide_eq_true_eq] at hsp
      rcases hsp with ((((rfl | rfl) | rfl) | rfl) | rfl) | rfl <;> exact absurd hlo (by decide)
    · obtain ⟨-, hhi⟩ := hcap d hd
      exact decide_eq_true (by omega)
    · obtain ⟨-, hhi⟩ := hcap d hd
      omega
  · exact ⟨h.1, h.2.1⟩

end HostCommand

/-! ### Reading a written line -/

namespace HostCommandCodec

open HostCommand ConversTokenizer

@[simp] theorem stops_field (t : Text) : Stops (field t) := stops_blank t

@[simp] theorem stops_optionalField (t : Text) : Stops (HostCommand.optionalField t) := by
  rw [HostCommand.optionalField]
  split
  · exact stops_nil
  · exact stops_field t

/-- A token field, with more to come. -/
@[simp] theorem next_field {tok s : Text} (htok : TokenField tok) (hs : Stops s) :
    next ⟨field tok ++ s⟩ = (tok, ⟨s⟩) := next_blank_token htok.isToken hs

/-- A token field at the end of the line. -/
@[simp] theorem next_field_last {tok : Text} (htok : TokenField tok) :
    next ⟨field tok⟩ = (tok, ⟨[]⟩) := by
  simpa using next_field htok stops_nil

@[simp] theorem nextInt_field (n : Int32) {s : Text} (hs : Stops s) :
    nextInt ⟨field (decimal n.toInt) ++ s⟩ 0 = (n, ⟨s⟩) := nextInt_blank_decimal n hs

@[simp] theorem nextInt_field_last (n : Int32) :
    nextInt ⟨field (decimal n.toInt)⟩ 0 = (n, ⟨[]⟩) := by
  simpa using nextInt_field n stops_nil

@[simp] theorem nextLong_field (n : Int64) {s : Text} (hs : Stops s) :
    nextLong ⟨field (decimal n.toInt) ++ s⟩ 0 = (n, ⟨s⟩) := nextLong_blank_decimal n hs

@[simp] theorem rest_field {t : Text} (ht : TextField t) :
    rest ⟨field t⟩ = t := rest_blank ht.isFreeText

/-- An optional text is read back, present or not. -/
@[simp] theorem rest_optionalField {t : Text} (ht : TextField t) :
    rest ⟨HostCommand.optionalField t⟩ = t := by
  rw [HostCommand.optionalField]
  split
  · rename_i h
    rw [List.length_eq_zero_iff.mp h]
    rfl
  · exact rest_field ht

@[simp] theorem rest_field_orAt {t : Text} (ht : TextField t) : rest ⟨field (orAt t)⟩ = orAt t := by
  refine rest_blank ?_
  rw [orAt]
  split
  · intro c hc
    rw [Option.mem_def, List.head?_cons, Option.some.injEq] at hc
    rw [← hc]
    decide
  · exact ht.isFreeText

/-- The facility letters are one token, or none. -/
@[simp] theorem next_formatFacilities (facilities : Facilities) :
    (next ⟨formatFacilities facilities⟩).1 = formatFacilities facilities := by
  rcases eq_or_ne (formatFacilities facilities) [] with h | h
  · rw [h]
    rfl
  · have htok : IsToken (formatFacilities facilities) :=
      ⟨h, fun c hc => (mem_formatFacilities hc).1⟩
    have hnext := next_token htok stops_nil
    rw [List.append_nil] at hnext
    rw [hnext]

/-- A command is written as its verb and, unless it is empty, a blank and its
body. -/
theorem format_eq (c : HostCommand) :
    format c = hostCommandPrefix ++ (c.verb ++ optionalField c.emit) := by
  simp only [format, optionalField]
  split <;> simp

/-- The blank behind the verb is skipped. -/
@[simp] theorem next_optionalField (s : Text) : next ⟨optionalField s⟩ = next ⟨s⟩ := by
  rw [optionalField]
  split
  · rename_i h
    rw [List.length_eq_zero_iff.mp h]
  · exact next_blank s

@[simp] theorem nextInt_optionalField (s : Text) : nextInt ⟨optionalField s⟩ 0 = nextInt ⟨s⟩ 0 := by
  simp only [nextInt, next_optionalField]

@[simp] theorem nextLong_optionalField (s : Text) :
    nextLong ⟨optionalField s⟩ 0 = nextLong ⟨s⟩ 0 := by
  simp only [nextLong, next_optionalField]

@[simp] theorem stops_field_append (t s : Text) : Stops (field t ++ s) := stops_blank (t ++ s)

/-- The first token of a body. -/
@[simp] theorem next_tokenField {tok s : Text} (htok : TokenField tok) (hs : Stops s) :
    next ⟨tok ++ s⟩ = (tok, ⟨s⟩) := next_token htok.isToken hs

@[simp] theorem nextInt_decimal (n : Int32) {s : Text} (hs : Stops s) :
    nextInt ⟨decimal n.toInt ++ s⟩ 0 = (n, ⟨s⟩) := by
  simp only [nextInt, next_token (isToken_decimal _) hs, parseAtoi_decimal_toInt]

@[simp] theorem nextLong_decimal (n : Int64) : nextLong ⟨decimal n.toInt⟩ 0 = (n, ⟨[]⟩) := by
  have h := next_token (isToken_decimal n.toInt) stops_nil
  rw [List.append_nil] at h
  simp only [nextLong, h, parseAtol_decimal_toInt]

/-- **Reading a formatted line gives the command back**, up to the markers. There is one case for
each verb; what is left to show is that the words stand where the reader looks. -/
theorem parseBody_emit {c : HostCommand} (h : c.WellFormed) :
    parseBody (c.verb ++ optionalField c.emit) = c.received := by
  obtain ⟨hverb, hupper⟩ := verb_spec h
  -- the verb finds its reader in the table, and the reader gets what stands behind it
  have hread : ∀ reader, readers.find? (·.1 = c.verb) = some (c.verb, reader) →
      parseBody (c.verb ++ optionalField c.emit) = reader ⟨optionalField c.emit⟩ :=
    fun reader => parseBody_reader hverb.isToken hupper (stops_optionalField _)
  cases c with
  | hostUser user host timestamp fromChannel toChannel text isObserver =>
    rw [hread (parseUser isObserver) (by cases isObserver <;> rfl)]
    obtain ⟨hu, hh, ht⟩ := h
    simp [parseUser, emit, received, hu, hh, ht]
  | hostChannelMessage user channel text =>
    rw [hread parseChannelMessage rfl]
    obtain ⟨hu, ht⟩ := h
    simp [parseChannelMessage, emit, received, hu, ht]
  | hostUserMessage source target text =>
    rw [hread parseUserMessage rfl]
    obtain ⟨hs, hu, ht⟩ := h
    simp [parseUserMessage, emit, received, hs, hu, ht]
  | hostUserData user host text =>
    rw [hread parseUserData rfl]
    obtain ⟨hu, hh, ht⟩ := h
    -- an empty text is written as the mark, and the mark is read as an empty text
    have hmark : (if orAt text = ['@'] then [] else orAt text) =
        if text = ['@'] then [] else text := by
      rcases eq_or_ne text [] with rfl | hne
      · rfl
      · have hself : orAt text = text := if_neg (by simpa [List.length_eq_zero_iff] using hne)
        rw [hself]
    simp [parseUserData, emit, received, hu, hh, ht, hmark]
  | hostInvite source user channel =>
    rw [hread parseInvite rfl]
    obtain ⟨hs, hu⟩ := h
    simp [parseInvite, emit, received, hs, hu]
  | hostPing => exact hread _ rfl
  | hostPong time =>
    rw [hread _ rfl]
    simp [emit, received]
  | hostHandshake hostname software facilities =>
    rw [hread parseHandshake rfl]
    obtain ⟨hn, hs⟩ := h
    simp [parseHandshake, emit, received, hn, tokenField_orUnknown hs, orUnknown_orUnknown,
      parseFacilities_formatFacilities]
  | hostTopic user host time channel text =>
    rw [hread parseTopic rfl]
    obtain ⟨hu, hh, ht⟩ := h
    simp [parseTopic, emit, received, hu, hh, ht]
  | hostMode channel options =>
    rw [hread parseMode rfl]
    have ht : TextField options := h
    simp [parseMode, emit, received, ht]
  | hostOper fromName channel user =>
    rw [hread parseOper rfl]
    obtain ⟨hf, hu⟩ := h
    simp [parseOper, emit, received, hf, hu]
  | hostAway user host time text =>
    rw [hread parseAway rfl]
    obtain ⟨hu, hh, ht⟩ := h
    simp [parseAway, emit, received, hu, hh, ht]
  | hostDest host time software =>
    rw [hread parseDest rfl]
    obtain ⟨hh, ht⟩ := h
    simp [parseDest, emit, received, hh, ht]
  | hostRoute dest user ttl =>
    rw [hread parseRoute rfl]
    obtain ⟨hd, hu⟩ := h
    simp [parseRoute, emit, received, hd, hu]
  | hostSysInfo user host =>
    rw [hread parseSysInfo rfl]
    obtain ⟨hu, hh⟩ := h
    simp [parseSysInfo, emit, received, hu, hh]
  | hostLoop detail =>
    rw [hread _ rfl]
    have ht : TextField detail := h
    simp [emit, received, ht]
  | hostExtendedCommand user commandName parameters =>
    rw [hread parseExtendedCommand rfl]
    obtain ⟨hu, hc, ht⟩ := h
    simp [parseExtendedCommand, emit, received, hu, hc, ht]
  | hostHelp user commandName =>
    rw [hread parseHelp rfl]
    obtain ⟨hu, hc⟩ := h
    simp [parseHelp, emit, received, hu, hc]
  | hostUserAdd user host nickname channel text =>
    rw [hread parseUserAdd rfl]
    obtain ⟨hu, hh, hn, ht⟩ := h
    simp [parseUserAdd, emit, received, hu, hh, hn, ht]
  | unknownHostCommand verb body =>
    obtain ⟨hv, hup, hnot, ht⟩ := h
    -- no reader has the verb, so the whole rest is its body
    refine (parseBody_unknown hv.isToken hup (stops_optionalField _) hnot).trans ?_
    simp [emit, received, ht]

/-- A clean line frames to one line. -/
theorem splitLines_frameLine_clean {line : Text} (h : Clean line) (hne : line ≠ []) :
    splitLines (frameLine lf line) = ([line], []) := by
  obtain ⟨c, s, rfl⟩ := List.exists_cons_of_ne_nil hne
  have hterm : ∀ d ∈ c :: s, isTerminator d = false := fun d hd => (h d hd).1
  rw [splitLines_frameLine (by decide) (hterm c (by simp)) (SingleLine.of_forall hterm),
    lineBody_eq_self hterm, decode_encode fun d hd => (h d hd).2]

/-- **The host codec round trip**: a well-formed command, formatted and framed,
is split into exactly one line, and that line is read as the command, up to the
markers of the empty fields. -/
theorem parse_format (c : HostCommand) (h : c.WellFormed) :
    ∃ line, splitLines (frameLine lf (format c)) = ([line], []) ∧
      parse line = .ok c.received := by
  refine ⟨format c, splitLines_frameLine_clean ?_ ?_, ?_⟩
  · rw [format_eq]
    exact Clean.append (by simp [Clean, hostCommandPrefix, isTerminator, isLatin1, cr, lf])
      ((verb_spec h).1.clean.append (clean_emit h).optionalField)
  · simp [format_eq, hostCommandPrefix]
  · rw [parse, format_eq, stripPrefix_hostCommandPrefix]
    simp only [parseBody_emit h]

/-- A topic with an odd text, a negative channel and the least timestamp. -/
theorem parse_format_topic :
    ∃ line, splitLines (frameLine lf (format (hostTopic "m0lte".toList "NØDE".toList
        Int64.minValue (-1) "@ /..PING?".toList))) = ([line], []) ∧
      parse line = .ok (hostTopic "m0lte".toList "NØDE".toList Int64.minValue (-1)
        "@ /..PING?".toList) :=
  parse_format (hostTopic "m0lte".toList "NØDE".toList Int64.minValue (-1) "@ /..PING?".toList)
    ⟨by decide, by decide, by decide⟩

end HostCommandCodec

end Convers
