import Convers.Lib.Table
import Convers.Text

/-!
# Names, channels, times and records

The data the hub works on. A callsign or a host name is compared by
`Convers.Callsigns.normalize`, trimmed and upper-cased, which is idempotent
(`Convers.Callsigns.normalize_normalize`) and so gives every name one canonical
form. A moment is a number of ticks within the framework's range, and only that
range has a Unix time (`Convers.DateTimeOffset.fromUnixTimeSeconds`).

The dictionaries of the hub and of the store are `Table`s: the record is stored
under the key it carries. The framework leaves the order of a dictionary open;
here it is the order of insertion.
-/

namespace Convers

/-! ### Names -/

namespace Callsigns

/-- `Callsigns.Normalize`. -/
def normalize (value : Text) : Text :=
  if isNullOrWhiteSpace value then [] else toUpperInvariant (trim value)

/-- `Callsigns.IsValidName`: not empty, no blank, no control character. -/
def isValidName (value : Text) : Bool :=
  value.length ≠ 0 && value.all fun c => !(isWhiteSpace c || isControl c || c = ' ')

/-- `Callsigns.Equal`. -/
def equal (a b : Text) : Bool := normalize a = normalize b

@[simp] theorem normalize_nil : normalize [] = [] := rfl

theorem isNullOrWhiteSpace_toUpperInvariant (t : Text) :
    isNullOrWhiteSpace (toUpperInvariant t) = isNullOrWhiteSpace t := by
  have hcomp : (isWhiteSpace ∘ toUpperChar) = isWhiteSpace :=
    funext fun c => isWhiteSpace_toUpperChar c
  rw [isNullOrWhiteSpace, toUpperInvariant, List.all_map, hcomp]
  rfl

/-- What is left of a string that is not blank is not blank. -/
theorem isNullOrWhiteSpace_trim {t : Text} (h : isNullOrWhiteSpace t = false) :
    isNullOrWhiteSpace (trim t) = false := by
  rw [Bool.eq_false_iff] at h ⊢
  intro htrim
  rcases hs : trim t with _ | ⟨c, s⟩
  · refine h (List.all_eq_true.mpr fun c hc => ?_)
    have hdrop : ∀ d ∈ t.dropWhile isWhiteSpace, isWhiteSpace d = true :=
      List.rdropWhile_eq_nil_iff.mp hs
    rw [← List.takeWhile_append_dropWhile (p := isWhiteSpace) (l := t)] at hc
    exact (List.mem_append.mp hc).elim List.mem_takeWhile_imp (hdrop c)
  · have hdrop := dropWhile_trim t
    rw [hs] at htrim hdrop
    rw [List.dropWhile_cons_of_pos (List.all_eq_true.mp htrim c (by simp))] at hdrop
    have := congrArg List.length hdrop
    have hle := (List.dropWhile_sublist isWhiteSpace (l := s)).length_le
    simp only [List.length_cons] at this
    omega

/-- **The canonical form is canonical.** A name that has been stored can be looked up as it is. -/
@[simp] theorem normalize_normalize (value : Text) :
    normalize (normalize value) = normalize value := by
  simp only [normalize]
  split
  · rfl
  · rename_i h
    have hblank : isNullOrWhiteSpace (toUpperInvariant (trim value)) = false := by
      rw [isNullOrWhiteSpace_toUpperInvariant]
      exact isNullOrWhiteSpace_trim (by simpa using h)
    rw [if_neg (by simp [hblank]), trim_toUpperInvariant, trim_trim,
      toUpperInvariant_toUpperInvariant]

/-- A valid name is only upper-cased. -/
theorem normalize_of_isValidName {value : Text} (h : isValidName value = true) :
    normalize value = toUpperInvariant value := by
  simp only [isValidName, Bool.and_eq_true, decide_eq_true_eq, List.all_eq_true, Bool.not_eq_true',
    Bool.or_eq_false_iff] at h
  obtain ⟨hne, hall⟩ := h
  have hblank : ∀ c ∈ value, isWhiteSpace c = false := fun c hc => (hall c hc).1.1
  rcases value with _ | ⟨c, s⟩
  · exact absurd rfl hne
  · have hnot : isNullOrWhiteSpace (c :: s) = false := by
      simp [isNullOrWhiteSpace, hblank c (by simp)]
    rw [normalize, if_neg (by simp [hnot]), trim_eq_self hblank]

/-- The canonical form of a valid name is valid. -/
theorem isValidName_normalize {value : Text} (h : isValidName value = true) :
    isValidName (normalize value) = true := by
  rw [normalize_of_isValidName h]
  simp only [isValidName, Bool.and_eq_true, decide_eq_true_eq, List.all_eq_true, Bool.not_eq_true',
    Bool.or_eq_false_iff, decide_eq_false_iff_not] at h ⊢
  refine ⟨by simpa [toUpperInvariant] using h.1, fun c hc => ?_⟩
  obtain ⟨d, hd, rfl⟩ := List.mem_map.mp hc
  obtain ⟨⟨hw, hctl⟩, -⟩ := h.2 d hd
  refine ⟨⟨by simpa using hw, by simpa using hctl⟩, ?_⟩
  intro hsp
  have hw' : isWhiteSpace (toUpperChar d) = false := by simpa using hw
  rw [hsp] at hw'
  exact absurd hw' (by decide)

end Callsigns

/-! ### Channels -/

namespace ChannelNumber

/-- `ChannelNumber.Random`: channel 0. -/
def random : Int32 := 0

/-- `ChannelNumber.IsValid`. -/
def isValid (channel : Int32) : Bool := 0 ≤ channel && channel ≤ 32767

end ChannelNumber

/-- The flags of a channel. -/
inductive ModeFlag where
  /-- `s`. -/
  | secretFlag
  /-- `p`. -/
  | privateFlag
  /-- `t`. -/
  | topicLocked
  /-- `i`. -/
  | invisible
  /-- `m`. -/
  | moderated
  /-- `l`. -/
  | localFlag
  deriving DecidableEq

/-- The modes of a channel: a set of flags. -/
abbrev ChannelMode := Finset ModeFlag

namespace ChannelModes

/-- The flag of a letter, in either case. -/
def flagOf (raw : Char) : Option ModeFlag :=
  match raw with
  | 's' | 'S' => some .secretFlag
  | 'p' | 'P' => some .privateFlag
  | 't' | 'T' => some .topicLocked
  | 'i' | 'I' => some .invisible
  | 'm' | 'M' => some .moderated
  | 'l' | 'L' => some .localFlag
  | _ => none

/-- The loop of `Apply`: the sign in force and the modes so far. -/
def applyLoop (isChannelZero : Bool) : Bool → ChannelMode → Text → ChannelMode
  | _, modes, [] => modes
  | removing, modes, raw :: options =>
    if raw = '+' then applyLoop isChannelZero false modes options
    else if raw = '-' then applyLoop isChannelZero true modes options
    else
      match flagOf raw with
      | none => applyLoop isChannelZero removing modes options
      | some bit =>
        -- channel 0 takes the topic lock only
        if isChannelZero ∧ bit ≠ .topicLocked then applyLoop isChannelZero removing modes options
        else
          applyLoop isChannelZero removing
            (if removing then modes.erase bit else insert bit modes) options

/-- `ChannelModes.Apply`. -/
def apply (start : ChannelMode) (options : Text) (isChannelZero : Bool) : ChannelMode :=
  applyLoop isChannelZero false start options

/-- The letters, in the order of `ToWire`. -/
def letters : List (ModeFlag × Char) :=
  [(.secretFlag, 's'), (.privateFlag, 'p'), (.topicLocked, 't'), (.invisible, 'i'),
    (.moderated, 'm'), (.localFlag, 'l')]

/-- `ChannelModes.ToWire`. -/
def toWire (modes : ChannelMode) : Text :=
  let sb := (letters.filter (·.1 ∈ modes)).map Prod.snd
  if sb.length = 0 then ['-'] else '+' :: sb

/-- `ChannelModes.RequiresInvite`. -/
def requiresInvite (modes : ChannelMode) : Bool := .privateFlag ∈ modes || .invisible ∈ modes

end ChannelModes

/-! ### Times -/

/-- A moment in UTC: ticks of 100 ns since the year 1, up to the year 9999. -/
structure DateTimeOffset where
  /-- The number of ticks. -/
  ticks : ℕ
  /-- No moment is after the year 9999. -/
  ticks_le : ticks ≤ 3155378975999999999
  deriving DecidableEq

/-- The year 1 begins at a moment. -/
theorem zero_ticks_le : 0 ≤ 3155378975999999999 := by omega

/-- Its first second ends at one. -/
theorem second_ticks_le : 10000000 ≤ 3155378975999999999 := by omega

namespace DateTimeOffset

/-- `DateTimeOffset.UnixEpoch` in seconds since the year 1. -/
def unixEpochSeconds : ℕ := 62135596800

/-- `ToUnixTimeSeconds`: whole seconds since 1970, rounded down. -/
def toUnixTimeSeconds (t : DateTimeOffset) : ℤ := (t.ticks / 10000000 : ℕ) - (unixEpochSeconds : ℤ)

/-- The seconds that are a moment: those of the years 1 to 9999. -/
def InRange (seconds : ℤ) : Prop := -62135596800 ≤ seconds ∧ seconds ≤ 253402300799

instance (seconds : ℤ) : Decidable (InRange seconds) := inferInstanceAs (Decidable (_ ∧ _))

/-- `FromUnixTimeSeconds`, which throws outside the years 1 to 9999. -/
def fromUnixTimeSeconds (seconds : ℤ) : Except Fault DateTimeOffset :=
  if h : InRange seconds then
    .ok ⟨(seconds + unixEpochSeconds).toNat * 10000000, by
      obtain ⟨h1, h2⟩ := h
      simp only [unixEpochSeconds]
      omega⟩
  else .error .argumentOutOfRange

/-- The moment cut to whole seconds, which is what a store keeps of it. -/
def wholeSeconds (t : DateTimeOffset) : DateTimeOffset :=
  ⟨t.ticks / 10000000 * 10000000, (Nat.div_mul_le_self _ _).trans t.ticks_le⟩

/-- The Unix time of a moment is in range. -/
theorem inRange_toUnixTimeSeconds (t : DateTimeOffset) : InRange t.toUnixTimeSeconds := by
  have h := t.ticks_le
  simp only [InRange, toUnixTimeSeconds, unixEpochSeconds]
  omega

end DateTimeOffset

/-! ### Records -/

/-- A local session. -/
structure LocalSession where
  id : Text
  callsign : Text
  channel : Int32
  personal : Text
  nickname : Text
  away : Text
  isOperator : Bool
  invitedChannels : Finset Int32
  joinedAt : DateTimeOffset
  deriving DecidableEq

/-- `LocalSession.IsAway`. -/
def LocalSession.isAway (s : LocalSession) : Bool := s.away.length ≠ 0

/-- A user of the network. -/
structure NetworkUser where
  name : Text
  host : Text
  channel : Int32
  personal : Text
  nickname : Text
  away : Text
  isObserver : Bool
  isOperator : Bool
  joinedAt : DateTimeOffset
  deriving DecidableEq

/-- `NetworkUser.IsAway`. -/
def NetworkUser.isAway (u : NetworkUser) : Bool := u.away.length ≠ 0

/-- The key of a user in the table: name and host. -/
def NetworkUser.key (u : NetworkUser) : Text × Text := (u.name, u.host)

/-- The metadata of a channel. -/
structure ChannelState where
  topic : Text
  topicSetBy : Text
  topicSetAt : Option DateTimeOffset
  modes : ChannelMode
  deriving DecidableEq

/-- `new ChannelState()`. -/
def ChannelState.new : ChannelState := ⟨[], [], none, ∅⟩

/-! ### The store -/

/-- A persisted topic. -/
structure StoredTopic where
  channel : Int32
  topic : Text
  setBy : Text
  setAt : DateTimeOffset
  deriving DecidableEq

/-- A persisted profile. -/
structure UserProfile where
  callsign : Text
  personal : Text
  nickname : Text
  passwordHash : Option Text
  updatedAt : DateTimeOffset
  deriving DecidableEq

/-- The tables of the store the hub uses. -/
structure ConversStore where
  topics : Table StoredTopic.channel
  profiles : Table UserProfile.callsign
  deriving DecidableEq

namespace ConversStore

/-- `GetProfile`. -/
def getProfile (s : ConversStore) (callsign : Text) : Option UserProfile :=
  s.profiles.find? (Callsigns.normalize callsign)

/-- `UpsertProfile`, which rejects a blank callsign. -/
def upsertProfile (s : ConversStore) (profile : UserProfile) : Except Fault ConversStore :=
  let call := Callsigns.normalize profile.callsign
  if isNullOrWhiteSpace call then .error .argument
  else .ok { s with
    profiles := s.profiles.put { profile with
      callsign := call, updatedAt := profile.updatedAt.wholeSeconds } }

/-- `UpsertTopic`: a stored topic that is as new, to the second, stays. -/
def upsertTopic (s : ConversStore) (topic : StoredTopic) : ConversStore :=
  let row := { topic with
    setBy := Callsigns.normalize topic.setBy, setAt := topic.setAt.wholeSeconds }
  match s.topics.find? topic.channel with
  | some current =>
    if current.setAt.ticks ≥ row.setAt.ticks then s else { s with topics := s.topics.put row }
  | none => { s with topics := s.topics.put row }

end ConversStore

end Convers
