import Convers.Host.Handshake
import Convers.Host.HostLink
import Convers.Host.InboundDemux
import Convers.Core.Topics
import Convers.Core.HubAnswer

/-!
# The name of the node

A host announces itself by a name, and its users are announced as being on a host of some
name. The network takes the two for one. Here they come about in two places.

| the name | where it comes from |
|---|---|
| of the users | the callsign the node was given, with its SSID |
| of the link | `uplink.hostname`, or else the callsign without its SSID, cut at nine characters |

`Convers.HostComposition.build` is where both are settled, and
`Convers.HostComposition.agrees_iff` says when they are one:
`Convers.HostComposition.NamedAlike`. A callsign that the node derives for itself ends in
an SSID, so without a configured name it never is.
-/

namespace Convers

/-! ### The callsign -/

namespace ConversIdentity

/-- `DefaultSsid`. -/
def defaultSsid : ℤ := 4

/-- `PlaceholderBase`. -/
def placeholderBase : Text := "N0CALL".toList

/-- `Normalise`. -/
def normalise (callsign : Text) : Text := toUpperInvariant (trim callsign)

/-- `ResolvePreferred`: the callsign, and whether it is a placeholder. -/
def resolvePreferred (overrideCallsign : Text) (nodeCallsign : Option Text) (ssid : ℤ) :
    Text × Bool :=
  if !isNullOrWhiteSpace overrideCallsign then (normalise overrideCallsign, false)
  else
    let effectiveSsid := if 0 ≤ ssid ∧ ssid ≤ 15 then ssid else defaultSsid
    match nodeCallsign.bind baseCallsign with
    | some nodeBase => (nodeBase ++ '-' :: decimal effectiveSsid, false)
    | none => (placeholderBase ++ '-' :: decimal effectiveSsid, true)

/-- `ResolveBinding`: the callsign, whether it is a placeholder, and whether it is bound as
it is. -/
def resolveBinding (appCallsign : Option Text) (overrideCallsign : Text)
    (nodeCallsign : Option Text) (ssid : ℤ) : Text × Bool × Bool :=
  match appCallsign.filter (! isNullOrWhiteSpace ·) with
  | some appCallsign => (normalise appCallsign, false, true)
  | none =>
    let (callsign, isPlaceholder) := resolvePreferred overrideCallsign nodeCallsign ssid
    (callsign, isPlaceholder, false)

end ConversIdentity

/-! ### The options of the link -/

/-- `MaxHostNameLength`. -/
def HostLinkOptions.maxHostNameLength : ℕ := 9

/-- `HostLinkOptions.Validate`: the options with a trimmed host name. -/
def HostLinkOptions.validate (options : HostLinkOptions) (initialBackoff maxBackoff : ℤ) :
    Except Fault HostLinkOptions :=
  if isNullOrWhiteSpace options.hostName then .error .argument
  else
    let host := trim options.hostName
    if host.length > maxHostNameLength then .error .argument
    else if options.silenceTimeout ≤ options.pingInterval then .error .argument
    else if initialBackoff ≤ 0 ∨ maxBackoff < initialBackoff then .error .argument
    else .ok { options with hostName := host }

/-- What is validated is valid, and differs in the name only. -/
theorem HostLinkOptions.valid_of_validate {options options' : HostLinkOptions}
    {initialBackoff maxBackoff : ℤ}
    (h : options.validate initialBackoff maxBackoff = .ok options') :
    options'.Valid initialBackoff maxBackoff ∧
      options' = { options with hostName := trim options.hostName } := by
  unfold validate at h
  dsimp only at h
  split at h
  · cases h
  · rename_i hblank
    split at h
    · cases h
    · rename_i hlong
      split at h
      · cases h
      · rename_i htimes
        split at h
        · cases h
        · rename_i hdelays
          cases h
          refine ⟨⟨trim_trim _, fun hnil => ?_, not_lt.mp hlong, not_le.mp htimes, ?_⟩, rfl⟩
          · have htrim := Callsigns.isNullOrWhiteSpace_trim (Bool.eq_false_iff.mpr hblank)
            have hempty : trim options.hostName = [] := hnil
            rw [hempty] at htrim
            cases htrim
          · exact ⟨not_le.mp fun hle => hdelays (Or.inl hle),
              not_lt.mp fun hlt => hdelays (Or.inr hlt)⟩

/-! ### The composition -/

/-- The part of `ConversHostConfig` that the hub and the link are made from. -/
structure ConversHostConfig where
  callsign : Text
  ssid : ℤ
  sysinfo : Text
  /-- `Uplink.Hostname`. -/
  hostname : Text
  /-- `Uplink.Password`. -/
  password : Text
  /-- `Uplink.Compression`. -/
  compression : Bool

namespace HostComposition

/-- `Truncate`. -/
def truncate (value : Text) : Text :=
  if value.length > HostLinkOptions.maxHostNameLength then
    value.take HostLinkOptions.maxHostNameLength
  else value

/-- `HostNameFor`. -/
def hostNameFor (config : ConversHostConfig) (callsign : Text) : Text :=
  if config.hostname.length > 0 then truncate (trim config.hostname)
  else truncate ((ConversIdentity.baseCallsign callsign).getD callsign)

/-- The callsign `Build` resolves. -/
def callsignOf (config : ConversHostConfig) (appCallsign nodeCallsign : Option Text) : Text :=
  (ConversIdentity.resolveBinding appCallsign config.callsign nodeCallsign config.ssid).1

/-- `Build`, of which this is the hub and the options every link engine is given: with the
default timings, and validated. -/
def build (config : ConversHostConfig) (appCallsign nodeCallsign : Option Text)
    (store : ConversStore) : Except Fault (Hub × HostLinkOptions) := do
  let callsign := callsignOf config appCallsign nodeCallsign
  let hub ← Hub.new callsign (some store)
  let hostLinkOptions := { HostLinkOptions.ofHostName (hostNameFor config callsign) with
    password := if config.password.length = 0 then none else some config.password
    sysInfo := config.sysinfo
    offerCompression := config.compression }
  let options ← hostLinkOptions.validate (1 * 10000000) (60 * 10000000)
  .ok (hub, options)

end HostComposition

/-! ### What the names are used for -/

/-- The host of an action for the uplink that names one. -/
def ConversAction.host? : ConversAction → Option Text
  | .sendUser _ host .. | .sendPersonal _ host _ | .sendAway _ host .. => some host
  | .sendTopic _ host .. => some host
  | _ => none

/-- The host of a command that announces a user. -/
def HostCommand.userHost? : HostCommand → Option Text
  | .hostUser _ host .. | .hostUserData _ host _ | .hostAway _ host .. => some host
  | _ => none

/-- **A host our users carry** in a run of the hub: in an action it answers, or in the
announcement of the users there are at its end. -/
def Hub.Carries (hub : Hub) (inputs : List Hub.Input) (host : Text) : Prop :=
  (∃ p ∈ Run.trace Hub.step hub inputs, ∃ a ∈ (p.1.advance p.2.1 p.2.2).actions,
      a.host? = some host) ∨
    ∃ c ∈ HostLink.onEstablished (Run.final Hub.step hub inputs), c.userHost? = some host

namespace HostLinkEngine

/-- **A name the link announces**, when a connection begins or later. -/
def Announces (options : HostLinkOptions) (name : Text) : Prop :=
  ∃ inbound start inputs software facilities,
    .hostHandshake name software facilities ∈ (opened options inbound start).2.outboundCommands ++
      (run (opened options inbound start).1 inputs).flatMap (·.step.outboundCommands)

/-- **A name the link answers to**: on every connection, an established engine replies to a
query for this host and for all, and to no other. -/
def AnswersTo (options : HostLinkOptions) (name : Text) : Prop :=
  ∀ inbound start inputs, ∀ t ∈ run (opened options inbound start).1 inputs,
    t.before.state = .established → ∀ text user host, t.turn = .line text →
      (HostCommandCodec.stripPrefix text).map HostCommandCodec.parseBody =
        some (.hostSysInfo user host) →
      (t.step.outboundCommands ≠ [] ↔
        equalsIgnoreCase host name = true ∨ equalsIgnoreCase host "all".toList = true)

end HostLinkEngine

/-- **The name we announce is the name our users carry**, up to letter case, and the one the
link answers to. -/
structure HostComposition.Agrees (hub : Hub) (options : HostLinkOptions) : Prop where
  announced : ∀ inputs host, hub.Carries inputs host → ∀ name,
    HostLinkEngine.Announces options name → HostLinkEngine.equalsIgnoreCase host name = true
  answered : ∀ inputs host, hub.Carries inputs host → HostLinkEngine.AnswersTo options host

/-! ### What the users carry -/

section Hub

variable {hub : Hub} {inputs : List Hub.Input}

theorem Hub.hostName_final : (Run.final Hub.step hub inputs).hostName = hub.hostName := by
  induction inputs generalizing hub with
  | nil => rfl
  | cons input inputs ih => rw [Run.final_cons, ih, Hub.hostName_step]

/-- An action that names a host names the one of the hub. -/
theorem Hub.host_of_mem_advance {now : DateTimeOffset} {e : ConversEvent} {a : ConversAction}
    (ha : a ∈ (hub.advance now e).actions) {host : Text} (hhost : a.host? = some host) :
    host = hub.hostName := by
  have hcontent : a.isContent = true := by
    cases a <;> first | rfl | cases hhost
  rcases hlocal : e.isLocal with _ | _
  · rcases hub.advance_of_not_isLocal now hlocal a ha with hdel | ⟨-, rfl⟩ | ⟨reason, rfl⟩
    · rw [ConversAction.isContent_of_isDeliver hdel] at hcontent
      cases hcontent
    · cases hhost
    · cases hhost
  · obtain ⟨-, hsend⟩ := Hub.announcement_of_mem hlocal ha hcontent
    cases e with
    | localJoin sessionId callsign channel =>
      cases hsend
      exact (Option.some.inj hhost).symm
    | localSetMode sessionId channel options =>
      cases hsend
      cases hhost
    | localSwitchChannel | localSay | localPrivateMessage | localSetPersonal | localSetAway
    | localSetTopic | localInvite | localLeave =>
      obtain ⟨s, -, rfl⟩ := Option.map_eq_some_iff.mp hsend
      first
        | exact (Option.some.inj hhost).symm
        | cases hhost
    | _ => cases hsend

/-- The announcement of a user names his host. -/
theorem HostLink.userHost_of_mem_announceUser {user : NetworkUser} {c : HostCommand}
    (hc : c ∈ HostLink.announceUser user) {host : Text} (hhost : c.userHost? = some host) :
    host = user.host := by
  rw [HostLink.announceUser, List.mem_cons, List.mem_append] at hc
  rcases hc with rfl | hc | hc
  · exact (Option.some.inj hhost).symm
  · split at hc
    · rw [List.mem_singleton.mp hc] at hhost
      exact (Option.some.inj hhost).symm
    · cases hc
  · split at hc
    · rw [List.mem_singleton.mp hc] at hhost
      exact (Option.some.inj hhost).symm
    · cases hc

/-- **Our users carry the name of the hub**, up to letter case. It is the name other hosts know them
under. -/
theorem Hub.Carries.equalsIgnoreCase {host : Text} (h : hub.Carries inputs host) :
    HostLinkEngine.equalsIgnoreCase host hub.hostName = true := by
  rcases h with ⟨p, hp, a, ha, hhost⟩ | ⟨c, hc, hhost⟩
  · have hname := (Run.invariant (I := fun h => h.hostName = hub.hostName) rfl inputs
      fun p _ hI => (Hub.hostName_step p.1 p.2.1 p.2.2).trans hI).1 p hp
    rw [Hub.host_of_mem_advance ha hhost, hname]
    exact decide_eq_true rfl
  · obtain ⟨user, huser, hc⟩ := List.mem_flatMap.mp hc
    rw [HostLink.userHost_of_mem_announceUser hc hhost]
    exact Hub.hostName_final ▸ (List.mem_filter.mp huser).2

/-- A user who joins a new hub carries its name. -/
theorem Hub.carries_join {hostName : Text} {store : Option ConversStore}
    (hnew : Hub.new hostName store = .ok hub) (now : DateTimeOffset) (callsign : Text) :
    hub.Carries [(now, .localJoin [] callsign 0)] hub.hostName := by
  have hmodes : hub.modesOf 0 = ∅ := by
    rw [Hub.modesOf, Hub.get?_channels_of_new hnew]
    rcases store.bind (·.topics.find? 0) with _ | row
    · rfl
    · rfl
  have hann : hub.announces (.localJoin [] callsign 0) = true := by
    rw [Hub.announces, Hub.admits, hmodes]
    rfl
  obtain ⟨before, send, after, hsend, hactions, -⟩ := Hub.advance_of_announces now hann
  refine Or.inl ⟨(hub, now, .localJoin [] callsign 0), by simp, send, ?_, ?_⟩
  · rw [hactions]
    simp
  · cases hsend
    rfl

end Hub

/-! ### What the link says -/

namespace HostLinkEngine

variable {options : HostLinkOptions}

/-- A link that we dial announces its name at once. -/
theorem announces_hostName (options : HostLinkOptions) : Announces options options.hostName :=
  ⟨false, defaultTime, [], options.software, options.facilities, by
    rw [opened, if_neg (by decide)]
    exact List.mem_append_left _ (List.mem_singleton_self _)⟩

/-- **A link announces its own name only.** It is fixed by the options, so one name is to be
compared with one. -/
theorem eq_of_announces {name : Text} (h : Announces options name) : name = options.hostName := by
  obtain ⟨inbound, start, inputs, software, facilities, hmem⟩ := h
  rcases List.mem_append.mp hmem with hmem | hmem
  · cases inbound with
    | false =>
      cases List.mem_singleton.mp hmem
      rfl
    | true => cases hmem
  · obtain ⟨t, ht, hmem⟩ := List.mem_flatMap.mp hmem
    obtain ⟨earlier, later, hrun⟩ := List.append_of_mem ht
    obtain ⟨hs, hmove⟩ := since_run since_opened hrun
    have hfilter := List.mem_filter.mpr ⟨hmem, (rfl : HostCommand.isHandshake _ = true)⟩
    rw [announced_of_move hs hmove] at hfilter
    split at hfilter
    · cases List.mem_singleton.mp hfilter
      rfl
    · cases hfilter

/-- A query for a host is replied to when it is for this one or for all. -/
theorem sysInfoReplies_ne_nil (e : HostLinkEngine) (user host : Text) :
    e.sysInfoReplies user host ≠ [] ↔
      equalsIgnoreCase host e.options.hostName = true ∨
        equalsIgnoreCase host "all".toList = true := by
  rw [sysInfoReplies, ← Bool.or_eq_true]
  split
  · rename_i h
    exact iff_of_true (List.cons_ne_nil _ _) h
  · rename_i h
    exact iff_of_false (fun hne => hne rfl) h

/-- **A link answers to its own name.** What it takes for itself is so at least what it calls
itself. -/
theorem answersTo_hostName (options : HostLinkOptions) : AnswersTo options options.hostName := by
  intro inbound start inputs t ht hstate text user host hturn hparsed
  obtain ⟨earlier, later, hrun⟩ := List.append_of_mem ht
  have hopened : Since options inbound start [] (opened options inbound start).1 := since_opened
  obtain ⟨hs, htake⟩ := run_invariant hopened
    (fun log t hs htake => hs.take (move_take hs.ne_disconnected htake)) hrun
  rw [hturn, take, onLineReceived_eq, hparsed, hstate] at htake
  have hstep := congrArg
    (Except.map fun p : HostLinkEngine × EngineStep => p.2.outboundCommands) htake
  have hcommands : t.step.outboundCommands =
      { t.before with lastInbound := t.now }.sysInfoReplies user host :=
    (Except.ok.inj hstep).symm
  rw [hcommands, sysInfoReplies_ne_nil]
  simp only [hs.options]

theorem AnswersTo.of_equalsIgnoreCase {name name' : Text} (h : AnswersTo options name)
    (heq : equalsIgnoreCase name' name = true) : AnswersTo options name' := by
  intro inbound start inputs t ht hstate text user host hturn hparsed
  have hsame : equalsIgnoreCase host name' = equalsIgnoreCase host name := by
    rw [equalsIgnoreCase, equalsIgnoreCase, of_decide_eq_true heq]
  rw [hsame]
  exact h inbound start inputs t ht hstate text user host hturn hparsed

end HostLinkEngine

namespace HostComposition

/-- **The names agree when the two names do.** The runs are done with here, and what is left is
about the configuration. -/
theorem agrees_iff_equalsIgnoreCase {hostName : Text} {store : Option ConversStore} {hub : Hub}
    (hnew : Hub.new hostName store = .ok hub) (options : HostLinkOptions) :
    Agrees hub options ↔ HostLinkEngine.equalsIgnoreCase hub.hostName options.hostName = true := by
  constructor
  · intro h
    exact h.announced _ _ (Hub.carries_join hnew HostLinkEngine.defaultTime []) _
      (HostLinkEngine.announces_hostName options)
  · intro heq
    have hcarried : ∀ inputs host, hub.Carries inputs host →
        HostLinkEngine.equalsIgnoreCase host options.hostName = true := by
      intro inputs host hcarries
      rw [HostLinkEngine.equalsIgnoreCase, of_decide_eq_true hcarries.equalsIgnoreCase]
      exact heq
    constructor
    · intro inputs host hcarries name hannounces
      rw [HostLinkEngine.eq_of_announces hannounces]
      exact hcarried inputs host hcarries
    · intro inputs host hcarries
      exact (HostLinkEngine.answersTo_hostName options).of_equalsIgnoreCase
        (hcarried inputs host hcarries)

/-! ### The two names -/

/-- **The condition under which the two names are one**: a configured name is the callsign,
up to letter case and behind its ninth character; or none is configured, and the callsign has
no SSID and at most nine characters. -/
def NamedAlike (config : ConversHostConfig) (callsign : Text) : Prop :=
  (config.hostname.length > 0 ∧
      toUpperInvariant (trim (truncate (trim config.hostname))) = callsign) ∨
    (config.hostname.length = 0 ∧ callsign.length ≤ 9 ∧
      ('-' ∉ callsign ∨ callsign.head? = some '-'))

instance (config : ConversHostConfig) (callsign : Text) : Decidable (NamedAlike config callsign) :=
  inferInstanceAs (Decidable (_ ∨ _))

theorem length_truncate (value : Text) :
    (truncate value).length ≤ 9 ∧ (truncate value).length ≤ value.length := by
  rw [truncate, HostLinkOptions.maxHostNameLength]
  split
  · rw [List.length_take]
    omega
  · omega

theorem length_trim_le (value : Text) : (trim value).length ≤ value.length :=
  (List.rdropWhile_prefix _ _).length_le.trans (List.dropWhile_sublist _).length_le

theorem length_toUpperInvariant (value : Text) : (toUpperInvariant value).length = value.length :=
  List.length_map _

/-- A text that begins and ends in no blank is trimmed. -/
theorem trim_of_ends {c d : Char} {s t : Text} (hc : isWhiteSpace c = false)
    (hd : isWhiteSpace d = false) (h : t ++ [d] = c :: s) : trim (t ++ [d]) = t ++ [d] := by
  have hstart : (t ++ [d]).dropWhile isWhiteSpace = t ++ [d] := by
    rw [h]
    exact List.dropWhile_cons_of_neg (by simp [hc])
  rw [trim, hstart, List.rdropWhile_concat_neg _ _ _ (by simp [hd])]

/-- A callsign and an SSID are normal. -/
theorem normalize_withSsid {base s : Text} (hbase : toUpperInvariant base = base) {c : Char}
    (hcons : base = c :: s) (hc : isWhiteSpace c = false) {ssid : ℤ}
    (hssid : 0 ≤ ssid ∧ ssid ≤ 15) :
    Callsigns.normalize (base ++ '-' :: decimal ssid) = base ++ '-' :: decimal ssid := by
  have hblank : isNullOrWhiteSpace (base ++ '-' :: decimal ssid) = false := by
    rw [isNullOrWhiteSpace, hcons, List.cons_append, List.all_cons, hc]
    rfl
  have hdigits : toUpperInvariant ('-' :: decimal ssid) = '-' :: decimal ssid := by
    obtain ⟨hlow, hhigh⟩ := hssid
    interval_cases ssid <;> decide
  have hupper : toUpperInvariant (base ++ '-' :: decimal ssid) = base ++ '-' :: decimal ssid := by
    rw [toUpperInvariant, List.map_append]
    exact congrArg₂ (· ++ ·) hbase hdigits
  obtain ⟨digits, d, hlast⟩ : ∃ digits d, decimal ssid = digits ++ [d] :=
    ⟨_, _, (List.dropLast_append_getLast (decimal_ne_nil ssid)).symm⟩
  have hd : isWhiteSpace d = false :=
    isWhiteSpace_of_mem_decimal (n := ssid) (by rw [hlast]; simp)
  have hsplit : base ++ '-' :: decimal ssid = (base ++ '-' :: digits) ++ [d] := by
    rw [hlast]
    simp
  have htrim : trim (base ++ '-' :: decimal ssid) = base ++ '-' :: decimal ssid := by
    rw [hsplit]
    exact trim_of_ends hc hd (s := s ++ '-' :: digits ++ [d]) (by rw [hcons]; simp)
  rw [Callsigns.normalize, if_neg (by simp [hblank]), htrim, hupper]

/-- A base callsign is upper-cased, and begins in no blank. -/
theorem baseCallsign_eq_some {callsign base : Text}
    (h : ConversIdentity.baseCallsign callsign = some base) :
    base = toUpperInvariant ((trim callsign).takeWhile (· ≠ '-')) ∧
      ∃ c s, base = c :: s ∧ isWhiteSpace c = false := by
  unfold ConversIdentity.baseCallsign at h
  dsimp only at h
  obtain ⟨hempty, h⟩ : ¬((trim callsign).takeWhile (· ≠ '-')).length = 0 ∧
      toUpperInvariant ((trim callsign).takeWhile (· ≠ '-')) = base := by
    split at h
    · cases h
    · split at h
      · cases h
      · rename_i hempty
        exact ⟨hempty, Option.some.inj h⟩
  subst h
  refine ⟨rfl, ?_⟩
  rcases hbase : (trim callsign).takeWhile (· ≠ '-') with _ | ⟨c, s⟩
  · exact absurd (congrArg List.length hbase) hempty
  · refine ⟨toUpperChar c, toUpperInvariant s, rfl, ?_⟩
    obtain ⟨rest, hrest⟩ : (c :: s) <+: trim callsign := hbase ▸ List.takeWhile_prefix _
    have hdrop := dropWhile_trim callsign
    rw [← hrest] at hdrop
    rw [isWhiteSpace_toUpperChar, Bool.eq_false_iff]
    intro hc
    rw [List.cons_append, List.dropWhile_cons_of_pos hc] at hdrop
    have hlen := (List.dropWhile_sublist isWhiteSpace (l := s ++ rest)).length_le
    rw [hdrop] at hlen
    simp at hlen

theorem normalize_normalise {call : Text} (h : isNullOrWhiteSpace call = false) :
    Callsigns.normalize (ConversIdentity.normalise call) = ConversIdentity.normalise call := by
  have hnormal : ConversIdentity.normalise call = Callsigns.normalize call := by
    rw [Callsigns.normalize, if_neg (by simp [h])]
    rfl
  rw [hnormal, Callsigns.normalize_normalize]

theorem normalize_resolvePreferred (overrideCallsign : Text) (nodeCallsign : Option Text)
    (ssid : ℤ) :
    Callsigns.normalize (ConversIdentity.resolvePreferred overrideCallsign nodeCallsign ssid).1 =
      (ConversIdentity.resolvePreferred overrideCallsign nodeCallsign ssid).1 := by
  rw [ConversIdentity.resolvePreferred]
  split
  · rename_i h
    exact normalize_normalise (by simpa using h)
  · dsimp only
    have hssid : 0 ≤ (if 0 ≤ ssid ∧ ssid ≤ 15 then ssid else ConversIdentity.defaultSsid) ∧
        (if 0 ≤ ssid ∧ ssid ≤ 15 then ssid else ConversIdentity.defaultSsid) ≤ 15 := by
      split
      · assumption
      · decide
    rcases hbase : nodeCallsign.bind ConversIdentity.baseCallsign with _ | nodeBase
    · exact normalize_withSsid (by decide) rfl (by decide) hssid
    · obtain ⟨node, -, hnode⟩ := Option.bind_eq_some_iff.mp hbase
      obtain ⟨hupper, c, s, hcons, hc⟩ := baseCallsign_eq_some hnode
      refine normalize_withSsid ?_ hcons hc hssid
      rw [hupper, toUpperInvariant_toUpperInvariant]

/-- **The callsign the node resolves is normal.** The hub takes it as it is, and no check of the
composition refuses it for that. -/
theorem normalize_callsignOf (config : ConversHostConfig) (appCallsign nodeCallsign : Option Text) :
    Callsigns.normalize (callsignOf config appCallsign nodeCallsign) =
      callsignOf config appCallsign nodeCallsign := by
  rw [callsignOf, ConversIdentity.resolveBinding]
  split
  · rename_i app happ
    exact normalize_normalise (by simpa using (Option.filter_eq_some_iff.mp happ).2)
  · exact normalize_resolvePreferred config.callsign nodeCallsign config.ssid

/-- **When the two names are one.** The link has a name of its own by default, which is the callsign
without its SSID. -/
theorem equalsIgnoreCase_hostNameFor_iff (config : ConversHostConfig) {callsign : Text}
    (hnormal : Callsigns.normalize callsign = callsign)
    (hblank : isNullOrWhiteSpace callsign = false) :
    HostLinkEngine.equalsIgnoreCase callsign (trim (hostNameFor config callsign)) = true ↔
      NamedAlike config callsign := by
  have hself : toUpperInvariant (trim callsign) = callsign := by
    rwa [Callsigns.normalize, if_neg (by simp [hblank])] at hnormal
  have hupper : toUpperInvariant callsign = callsign := by
    rw [← hself, toUpperInvariant_toUpperInvariant]
  have htrim : trim callsign = callsign := by
    rw [← hself, trim_toUpperInvariant, trim_trim]
  rw [HostLinkEngine.equalsIgnoreCase, decide_eq_true_iff, hupper, NamedAlike, hostNameFor]
  rcases Nat.eq_zero_or_pos config.hostname.length with hnone | hsome
  · rw [if_neg (by omega)]
    -- a name that is shorter than the callsign is another one
    have hshort : ∀ name : Text, (truncate name).length < callsign.length →
        callsign ≠ toUpperInvariant (trim (truncate name)) := by
      intro name hlt heq
      have hlen := congrArg List.length heq
      rw [length_toUpperInvariant] at hlen
      have := length_trim_le (truncate name)
      omega
    have hwhole : callsign = toUpperInvariant (trim (truncate callsign)) ↔ callsign.length ≤ 9 := by
      rcases Nat.lt_or_ge 9 callsign.length with hlong | hle
      · exact iff_of_false (hshort callsign (by have := (length_truncate callsign).1; omega))
          (by omega)
      · refine iff_of_true ?_ hle
        rw [truncate, if_neg (by rw [HostLinkOptions.maxHostNameLength]; omega), hself]
    have hgoal : callsign = toUpperInvariant (trim (truncate
          ((ConversIdentity.baseCallsign callsign).getD callsign))) ↔
        callsign.length ≤ 9 ∧ ('-' ∉ callsign ∨ callsign.head? = some '-') := by
      rcases hbase : ConversIdentity.baseCallsign callsign with _ | base
      -- nothing comes before the first dash, and the callsign is taken as it is
      · rw [Option.getD_none, hwhole]
        refine (and_iff_left (Or.inr ?_)).symm
        unfold ConversIdentity.baseCallsign at hbase
        dsimp only at hbase
        rw [if_neg (by simp [hblank]), htrim] at hbase
        rcases callsign with _ | ⟨c, s⟩
        · cases hblank
        · by_cases hc : c = '-'
          · rw [hc]
            rfl
          · rw [List.takeWhile_cons_of_pos (by simpa using hc)] at hbase
            cases hbase
      · obtain ⟨hupperBase, c, s, hcons, -⟩ := baseCallsign_eq_some hbase
        rw [htrim] at hupperBase
        rw [Option.getD_some]
        by_cases hdash : '-' ∈ callsign
        -- an SSID is cut off
        · refine iff_of_false (hshort base ?_) ?_
          · have hle := (length_truncate base).2
            have hlt : (callsign.takeWhile (· ≠ '-')).length < callsign.length := by
              refine lt_of_le_of_ne (List.takeWhile_prefix _).length_le fun heq => ?_
              have hall := List.takeWhile_eq_self_iff.mp
                ((List.takeWhile_prefix (· ≠ '-')).eq_of_length heq)
              simpa using hall '-' hdash
            rw [hupperBase, length_toUpperInvariant] at hle
            rw [hupperBase]
            omega
          · rintro ⟨-, hnot | hhead⟩
            · exact hnot hdash
            · obtain ⟨s', rfl⟩ := List.head?_eq_some_iff.mp hhead
              rw [List.takeWhile_cons_of_neg (by simp)] at hupperBase
              cases hupperBase.symm.trans hcons
        · have hbaseAll : base = callsign := by
            rw [hupperBase, List.takeWhile_eq_self_iff.mpr, hupper]
            intro d hd
            have hne : d ≠ '-' := fun heq => hdash (heq ▸ hd)
            simpa using hne
          rw [hbaseAll, hwhole]
          exact (and_iff_left (Or.inl hdash)).symm
    simpa [hnone] using hgoal
  · rw [if_pos hsome]
    constructor
    · exact fun h => Or.inl ⟨hsome, h.symm⟩
    · rintro (⟨-, h⟩ | ⟨h, -⟩)
      · exact h.symm
      · omega

/-! ### The whole -/

/-- What a composition that is accepted has made of the two names. -/
theorem names_of_build {config : ConversHostConfig} {appCallsign nodeCallsign : Option Text}
    {store : ConversStore} {hub : Hub} {options : HostLinkOptions}
    (hbuild : build config appCallsign nodeCallsign store = .ok (hub, options)) :
    Hub.new (callsignOf config appCallsign nodeCallsign) (some store) = .ok hub ∧
      isNullOrWhiteSpace (callsignOf config appCallsign nodeCallsign) = false ∧
        hub.hostName = callsignOf config appCallsign nodeCallsign ∧
          options.hostName =
            trim (hostNameFor config (callsignOf config appCallsign nodeCallsign)) := by
  simp only [build, bind, Except.bind] at hbuild
  rcases hnew : Hub.new (callsignOf config appCallsign nodeCallsign) (some store) with fault | hub'
  · rw [hnew] at hbuild
    cases hbuild
  · rw [hnew] at hbuild
    dsimp only at hbuild
    split at hbuild
    · cases hbuild
    · rename_i options' hvalidate
      cases hbuild
      have hname := hnew
      rw [Hub.new] at hname
      split at hname
      · cases hname
      · rename_i hblank
        cases hname
        refine ⟨rfl, Bool.eq_false_iff.mpr hblank, normalize_callsignOf _ _ _, ?_⟩
        rw [(HostLinkOptions.valid_of_validate hvalidate).2]
        rfl

/-- The configuration as it is written for a new node. -/
def exampleConfig : ConversHostConfig where
  callsign := []
  ssid := ConversIdentity.defaultSsid
  sysinfo := []
  hostname := []
  password := []
  compression := false

/-- An empty store. -/
def exampleStore : ConversStore := ⟨Table.empty, Table.empty⟩

end HostComposition

end Convers
