import Convers.Protocol.Tokenizer
import Convers.Protocol.Wire

/-!
# Host commands

The commands two hosts exchange, one constructor a verb, each with the fields of
its wire layout, and `Convers.HostCommand.emit`, which writes the fields in wire
order. A verb the program does not model is kept with its body
(`Convers.HostCommand.unknownHostCommand`).

The facilities of the handshake are a set of `Convers.Facility`, written as one
letter each; reading the letters of a set gives the set
(`Convers.parseFacilities_formatFacilities`).
-/

namespace Convers

/-! ### Facilities -/

/-- The facilities of the `HOST` handshake. -/
inductive Facility where
  /-- `a`: away, old style. -/
  | awayOld
  /-- `A`: away, new style. -/
  | awayNew
  /-- `d`: destination forwarding. -/
  | destinationForwarding
  /-- `m`: channel modes. -/
  | channelModes
  /-- `p`: ping-pong link measurement. -/
  | pingPong
  /-- `u`: the UDAT extension. -/
  | udat
  /-- `n`: nicknames. -/
  | nicknames
  /-- `f`: filter. -/
  | filter
  /-- `i`: saupp internal. -/
  | sauppInternal
  deriving DecidableEq

/-- A set of facilities. -/
abbrev Facilities := Finset Facility

/-- `FacilitiesCodec.Map`: the flags and their letters, in the order of emission. -/
def facilitiesMap : List (Facility × Char) :=
  [(.awayNew, 'A'), (.awayOld, 'a'), (.destinationForwarding, 'd'), (.channelModes, 'm'),
    (.pingPong, 'p'), (.udat, 'u'), (.nicknames, 'n'), (.filter, 'f'), (.sauppInternal, 'i')]

/-- `FacilitiesCodec.Parse`: a recognised letter sets its flag. -/
def parseFacilities (letters : Text) : Facilities :=
  letters.foldl (fun result c =>
    match facilitiesMap.find? (·.2 = c) with
    | some entry => insert entry.1 result
    | none => result) ∅

/-- `FacilitiesCodec.Format`: the letters of a set, in the order of the map. -/
def formatFacilities (facilities : Facilities) : Text :=
  (facilitiesMap.filter (·.1 ∈ facilities)).map Prod.snd

/-- Each letter of the map is found under its own flag. -/
theorem find?_facilitiesMap {entry : Facility × Char} (h : entry ∈ facilitiesMap) :
    facilitiesMap.find? (·.2 = entry.2) = some entry := by
  simp only [facilitiesMap, List.mem_cons, List.not_mem_nil, or_false] at h
  rcases h with rfl | rfl | rfl | rfl | rfl | rfl | rfl | rfl | rfl <;> decide

theorem mem_facilitiesMap (f : Facility) : ∃ c, (f, c) ∈ facilitiesMap := by
  cases f <;> exact ⟨_, by simp [facilitiesMap]; rfl⟩

/-- Reading letters of the map adds their flags. -/
theorem foldl_facilities (entries : List (Facility × Char))
    (h : ∀ entry ∈ entries, entry ∈ facilitiesMap) (start : Facilities) (f : Facility) :
    f ∈ (entries.map Prod.snd).foldl (fun result c =>
        match facilitiesMap.find? (·.2 = c) with
        | some entry => insert entry.1 result
        | none => result) start ↔ f ∈ start ∨ f ∈ entries.map Prod.fst := by
  induction entries generalizing start with
  | nil => simp
  | cons entry entries ih =>
    rw [List.map_cons, List.foldl_cons, find?_facilitiesMap (h entry (by simp)),
      ih fun e he => h e (by simp [he])]
    simp only [Finset.mem_insert, List.map_cons, List.mem_cons]
    tauto

/-- **A set of facilities survives its letters.** What two hosts tell each other at the handshake is
therefore what each of them has. -/
theorem parseFacilities_formatFacilities (facilities : Facilities) :
    parseFacilities (formatFacilities facilities) = facilities := by
  ext f
  rw [parseFacilities, formatFacilities,
    foldl_facilities _ (fun e he => List.mem_of_mem_filter he)]
  simp only [Finset.notMem_empty, false_or, List.mem_map, List.mem_filter, decide_eq_true_eq]
  constructor
  · rintro ⟨entry, ⟨-, hmem⟩, rfl⟩
    exact hmem
  · intro hf
    obtain ⟨c, hc⟩ := mem_facilitiesMap f
    exact ⟨(f, c), ⟨hc, hf⟩, rfl⟩

/-- The letters of a set are the letters of the map. -/
theorem mem_formatFacilities {facilities : Facilities} {c : Char}
    (h : c ∈ formatFacilities facilities) :
    isSpace c = false ∧ isTerminator c = false ∧ isLatin1 c = true := by
  obtain ⟨entry, hentry, rfl⟩ := List.mem_map.mp h
  have hmem : entry ∈ facilitiesMap := List.mem_of_mem_filter hentry
  simp only [facilitiesMap, List.mem_cons, List.not_mem_nil, or_false] at hmem
  rcases hmem with rfl | rfl | rfl | rfl | rfl | rfl | rfl | rfl | rfl <;> decide

/-! ### The commands -/

/-- A host command, with the fields of its verb. -/
inductive HostCommand where
  /-- `USER`, or `OBSV` for an observer: `user@host` moved between two channels. -/
  | hostUser (user host : Text) (timestamp : Int64) (fromChannel toChannel : Int32) (text : Text)
      (isObserver : Bool)
  /-- `CMSG`: a message to a channel. -/
  | hostChannelMessage (user : Text) (channel : Int32) (text : Text)
  /-- `UMSG`: a private message. -/
  | hostUserMessage (source target text : Text)
  /-- `UDAT`: a personal text. -/
  | hostUserData (user host text : Text)
  /-- `INVI`: an invitation to a channel. -/
  | hostInvite (source user : Text) (channel : Int32)
  /-- `PING`. -/
  | hostPing
  /-- `PONG`, with the sender's measured round-trip time. -/
  | hostPong (time : Int64)
  /-- `HOST`: the handshake. -/
  | hostHandshake (hostname software : Text) (facilities : Facilities)
  /-- `TOPI`: a topic. -/
  | hostTopic (user host : Text) (time : Int64) (channel : Int32) (text : Text)
  /-- `MODE`: the modes of a channel. -/
  | hostMode (channel : Int32) (options : Text)
  /-- `OPER`: operator status. -/
  | hostOper (fromName : Text) (channel : Int32) (user : Text)
  /-- `AWAY`: an away text, empty when back. -/
  | hostAway (user host : Text) (time : Int64) (text : Text)
  /-- `DEST`: a reachable destination. -/
  | hostDest (host : Text) (time : Int64) (software : Text)
  /-- `ROUT`: a route query. -/
  | hostRoute (dest user : Text) (ttl : Int32)
  /-- `SYSI`: a system-information query. -/
  | hostSysInfo (user host : Text)
  /-- `LOOP`: a loop was found. -/
  | hostLoop (detail : Text)
  /-- `ECMD`: an extended command. -/
  | hostExtendedCommand (user commandName parameters : Text)
  /-- `HELP`: a request for help on an extended command. -/
  | hostHelp (user commandName : Text)
  /-- `UADD`: a nickname and a personal text. -/
  | hostUserAdd (user host nickname : Text) (channel : Int32) (text : Text)
  /-- Any other verb, with its raw body. -/
  | unknownHostCommand (verb body : Text)
  deriving DecidableEq

namespace HostCommand

/-- The verb a command is sent under. -/
def verb : HostCommand → Text
  | hostUser _ _ _ _ _ _ isObserver => if isObserver then "OBSV".toList else "USER".toList
  | hostChannelMessage .. => "CMSG".toList
  | hostUserMessage .. => "UMSG".toList
  | hostUserData .. => "UDAT".toList
  | hostInvite .. => "INVI".toList
  | hostPing => "PING".toList
  | hostPong .. => "PONG".toList
  | hostHandshake .. => "HOST".toList
  | hostTopic .. => "TOPI".toList
  | hostMode .. => "MODE".toList
  | hostOper .. => "OPER".toList
  | hostAway .. => "AWAY".toList
  | hostDest .. => "DEST".toList
  | hostRoute .. => "ROUT".toList
  | hostSysInfo .. => "SYSI".toList
  | hostLoop .. => "LOOP".toList
  | hostExtendedCommand .. => "ECMD".toList
  | hostHelp .. => "HELP".toList
  | hostUserAdd .. => "UADD".toList
  | unknownHostCommand verb _ => verb

/-- The personal slot of `USER` and `UDAT`: a lone `@` stands for no text. -/
def orAt (text : Text) : Text := if text.length = 0 then ['@'] else text

/-- `HostHandshake.UnknownSoftware`, the stand-in for an absent software field. -/
def unknownSoftware : Text := ['?']

/-- The software slot of `HOST`, with the stand-in when it is empty. -/
def orUnknown (software : Text) : Text :=
  if software.length = 0 then unknownSoftware else software

/-- A field after a blank. -/
def field (t : Text) : Text := ' ' :: t

/-- An optional last field: a blank and the text, or nothing. -/
def optionalField (t : Text) : Text := if t.length = 0 then [] else field t

/-- The body of a command in wire order, without prefix, verb and terminator. -/
def emit : HostCommand → Text
  | hostUser user host timestamp fromChannel toChannel text _ =>
    user ++ field host ++ field (decimal timestamp.toInt) ++ field (decimal fromChannel.toInt) ++
      field (decimal toChannel.toInt) ++ field (orAt text)
  | hostChannelMessage user channel text => user ++ field (decimal channel.toInt) ++ field text
  | hostUserMessage source target text => source ++ field target ++ field text
  | hostUserData user host text => user ++ field host ++ field (orAt text)
  | hostInvite source user channel => source ++ field user ++ field (decimal channel.toInt)
  | hostPing => []
  | hostPong time => decimal time.toInt
  | hostHandshake hostname software facilities =>
    hostname ++ field (orUnknown software) ++ optionalField (formatFacilities facilities)
  | hostTopic user host time channel text =>
    user ++ field host ++ field (decimal time.toInt) ++ field (decimal channel.toInt) ++
      optionalField text
  | hostMode channel options => decimal channel.toInt ++ field options
  | hostOper fromName channel user => fromName ++ field (decimal channel.toInt) ++ field user
  | hostAway user host time text =>
    user ++ field host ++ field (decimal time.toInt) ++ optionalField text
  | hostDest host time software => host ++ field (decimal time.toInt) ++ optionalField software
  | hostRoute dest user ttl => dest ++ field user ++ field (decimal ttl.toInt)
  | hostSysInfo user host => user ++ field host
  | hostLoop detail => detail
  | hostExtendedCommand user commandName parameters =>
    user ++ field commandName ++ optionalField parameters
  | hostHelp user commandName => user ++ field commandName
  | hostUserAdd user host nickname channel text =>
    user ++ field host ++ field nickname ++ field (decimal channel.toInt) ++ optionalField text
  | unknownHostCommand _ body => body

end HostCommand

end Convers
