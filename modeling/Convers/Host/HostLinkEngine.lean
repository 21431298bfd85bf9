import Convers.Host.HostBridge

/-!
# The link engine

The state machine of one host link, in either role: the handshake, what a line does
to it, and the keepalive clock. It makes no input or output; each step answers the
commands to send and the events for the hub.

A line is dealt with in three stages: the codec, which never fails, the state of
the link, and the bridge, which fails on a timestamp outside the framework's range.
So `Convers.HostLinkEngine.onLineReceived` returns exactly when the timestamp field
of the line, if its verb has one, is in range
(`Convers.HostLinkEngine.onLineReceived_isOk_iff`); the field is read off the words
of the line (`Convers.words`), independently of the tokenizer.
-/

namespace Convers

/-- `HostLinkState`. -/
inductive HostLinkState where
  | disconnected
  | handshaking
  | established
  deriving DecidableEq

/-- The options of a link. Durations are in ticks. -/
structure HostLinkOptions where
  hostName : Text
  software : Text
  facilities : Facilities
  password : Option Text
  offerCompression : Bool
  sysInfo : Text
  handshakeTimeout : ℤ
  pingInterval : ℤ
  silenceTimeout : ℤ
  deriving DecidableEq

/-- The defaults of `HostLinkOptions`. -/
def HostLinkOptions.ofHostName (hostName : Text) : HostLinkOptions where
  hostName := hostName
  software := "pdnconv1".toList
  facilities := {.awayNew, .awayOld, .channelModes, .pingPong, .udat, .nicknames}
  password := none
  offerCompression := false
  sysInfo := []
  handshakeTimeout := 30 * 10000000
  pingInterval := 60 * 10000000
  silenceTimeout := 180 * 10000000

/-- `EngineStep`: what the driver has to carry out. -/
structure EngineStep where
  outboundCommands : List HostCommand
  hubEvents : List ConversEvent
  handshakeCompleted : Bool
  negotiatedFacilities : Facilities
  dropReason : Option Text
  deriving DecidableEq

/-- `EngineStep.None`. -/
def EngineStep.none : EngineStep := ⟨[], [], false, ∅, Option.none⟩

/-- The engine of one connection. -/
structure HostLinkEngine where
  options : HostLinkOptions
  inbound : Bool
  state : HostLinkState
  negotiatedFacilities : Facilities
  peerHostName : Text
  lastRoundTripMs : Option ℕ
  lastInbound : DateTimeOffset
  lastPingSent : DateTimeOffset
  handshakeSentAt : DateTimeOffset
  lastPingRoundTripAt : DateTimeOffset
  deriving DecidableEq

namespace HostLinkEngine

/-- The moment a field of the engine holds before it is set. -/
def defaultTime : DateTimeOffset := ⟨0, zero_ticks_le⟩

/-- The constructor, on validated options. -/
def new (options : HostLinkOptions) (inbound : Bool) : HostLinkEngine :=
  { options := options, inbound := inbound, state := .disconnected, negotiatedFacilities := ∅,
    peerHostName := [], lastRoundTripMs := none, lastInbound := defaultTime,
    lastPingSent := defaultTime, handshakeSentAt := defaultTime,
    lastPingRoundTripAt := defaultTime }

/-- Our `HOST` line. -/
def handshake (e : HostLinkEngine) : HostCommand :=
  .hostHandshake e.options.hostName e.options.software e.options.facilities

/-- The reset that `OnConnected` and `OnAccepted` share. -/
def startHandshake (now : DateTimeOffset) (e : HostLinkEngine) : HostLinkEngine :=
  { e with
    state := .handshaking, lastInbound := now, handshakeSentAt := now, lastPingSent := now,
    negotiatedFacilities := ∅, peerHostName := [], lastRoundTripMs := none }

/-- `OnConnected`: we announce ourselves first. -/
def onConnected (now : DateTimeOffset) (e : HostLinkEngine) : HostLinkEngine × EngineStep :=
  (e.startHandshake now, { EngineStep.none with outboundCommands := [e.handshake] })

/-- `OnAccepted`: we wait for the announcement of the peer. -/
def onAccepted (now : DateTimeOffset) (e : HostLinkEngine) : HostLinkEngine × EngineStep :=
  (e.startHandshake now, EngineStep.none)

/-- `OnLineWhileHandshaking`. -/
def onLineWhileHandshaking (e : HostLinkEngine) (command : HostCommand) :
    Except Fault (HostLinkEngine × EngineStep) :=
  match command with
  | .hostHandshake hostname _ facilities =>
    let negotiated := e.options.facilities ∩ facilities
    let e := { e with
      negotiatedFacilities := negotiated, peerHostName := hostname, state := .established }
    .ok (e, { EngineStep.none with
      outboundCommands := if e.inbound then [e.handshake] else []
      handshakeCompleted := true
      negotiatedFacilities := negotiated })
  | command => do
    -- presence that comes before the reply is an event already
    let early ← HostBridge.toEvent command
    .ok (e, { EngineStep.none with hubEvents := early.toList })

/-- `RecordPong`: our own measurement, never negative. -/
def recordPong (now : DateTimeOffset) (e : HostLinkEngine) : HostLinkEngine :=
  { e with lastRoundTripMs := some ((now.ticks - e.lastPingRoundTripAt.ticks) / 10000) }

/-- `SystemSender`. -/
def systemSender : Text := "conversd".toList

/-- `RouteReply`. -/
def routeReply (e : HostLinkEngine) (dest user : Text) : HostCommand :=
  let parent := if e.peerHostName.length = 0 then "(uplink)".toList else e.peerHostName
  .hostUserMessage systemSender user ("*** route: ".toList ++ e.options.hostName ++
    " -> ".toList ++ parent ++ " -> ".toList ++ dest)

/-- `string.Equals` with `OrdinalIgnoreCase`. -/
def equalsIgnoreCase (a b : Text) : Bool := toUpperInvariant a = toUpperInvariant b

/-- `SysInfoReplies`: nothing on a query for another host. -/
def sysInfoReplies (e : HostLinkEngine) (user host : Text) : List HostCommand :=
  if equalsIgnoreCase host e.options.hostName || equalsIgnoreCase host "all".toList then
    let line (text : Text) : HostCommand := .hostUserMessage systemSender user
      ("*** ".toList ++ e.options.hostName ++ ": ".toList ++ text)
    line ("pdn-convers ".toList ++ e.options.software ++ " (strict leaf)".toList) ::
      if e.options.sysInfo.length ≠ 0 then [line e.options.sysInfo] else []
  else []

/-- `OnLineWhileEstablished`. -/
def onLineWhileEstablished (now : DateTimeOffset) (e : HostLinkEngine) (command : HostCommand) :
    Except Fault (HostLinkEngine × EngineStep) :=
  match command with
  | .hostHandshake .. => .ok (e, { EngineStep.none with
      dropReason := some "unexpected second /..HOST on an established link".toList })
  | .hostPong time =>
    .ok (e.recordPong now, { EngineStep.none with hubEvents := [.hostPong time] })
  | .hostLoop detail => .ok (e, { EngineStep.none with
      hubEvents := [.hostLoop detail]
      dropReason := some ("/..LOOP received: ".toList ++ detail) })
  | .hostRoute dest user _ =>
    .ok (e, { EngineStep.none with outboundCommands := [e.routeReply dest user] })
  | .hostSysInfo user host =>
    .ok (e, { EngineStep.none with outboundCommands := e.sysInfoReplies user host })
  | command => do
    let event ← HostBridge.toEvent command
    .ok (e, { EngineStep.none with hubEvents := event.toList })

/-- `OnLineReceived`. -/
def onLineReceived (now : DateTimeOffset) (e : HostLinkEngine) (line : Text) :
    Except Fault (HostLinkEngine × EngineStep) := do
  let e := { e with lastInbound := now }
  match ← HostCommandCodec.tryParse line with
  | none => .ok (e, EngineStep.none)
  | some parsed =>
    match e.state with
    | .handshaking => e.onLineWhileHandshaking parsed
    | .established => e.onLineWhileEstablished now parsed
    | .disconnected => .ok (e, EngineStep.none)

/-- `OnTick`. -/
def onTick (now : DateTimeOffset) (e : HostLinkEngine) : HostLinkEngine × EngineStep :=
  let since (t : DateTimeOffset) : ℤ := (now.ticks : ℤ) - t.ticks
  if e.state = .handshaking ∧ since e.handshakeSentAt ≥ e.options.handshakeTimeout then
    (e, { EngineStep.none with
      dropReason := some "handshake timeout (no /..HOST reply)".toList })
  else if e.state ≠ .established then (e, EngineStep.none)
  else if since e.lastInbound ≥ e.options.silenceTimeout then
    (e, { EngineStep.none with
      dropReason := some "silence timeout (no traffic from parent)".toList })
  else if since e.lastPingSent ≥ e.options.pingInterval then
    ({ e with lastPingSent := now, lastPingRoundTripAt := now },
      { EngineStep.none with outboundCommands := [.hostPing] })
  else (e, EngineStep.none)

/-! ### The lines the engine takes -/

/-- The verbs with a timestamp that the bridge converts. -/
def stampedVerbs : List Text :=
  ["USER".toList, "OBSV".toList, "AWAY".toList, "TOPI".toList]

/-- The timestamp field of a line: the fourth word of the body of a host command
with one of the stamped verbs, read as a number. -/
def timestampField (line : Text) : Option Int64 :=
  match HostCommandCodec.stripPrefix line with
  | none => none
  | some body =>
    if toUpperInvariant ((words body).headD []) ∈ stampedVerbs then
      some (parseAtol ((words body).getD 3 []) 0)
    else none

/-- The reader of a stamped verb reads the timestamp as its third field, and the
others read none. -/
theorem timestamp?_reader {entry : Text × (ConversTokenizer → HostCommand)}
    (h : entry ∈ HostCommandCodec.readers) (t : ConversTokenizer) :
    HostBridge.timestamp? (entry.2 t) =
      if entry.1 ∈ stampedVerbs then some (parseAtol t.next.2.next.2.next.1 0) else none := by
  simp only [HostCommandCodec.readers, List.mem_cons, List.not_mem_nil, or_false] at h
  rcases h with rfl | rfl | rfl | rfl | rfl | rfl | rfl | rfl | rfl | rfl | rfl | rfl | rfl | rfl |
    rfl | rfl | rfl | rfl | rfl | rfl <;> rfl

theorem stampedVerbs_subset : stampedVerbs ⊆ HostCommandCodec.modelledVerbs := by
  simp [stampedVerbs, HostCommandCodec.modelledVerbs, HostCommandCodec.readers]

/-- **The timestamp of a parsed line is its timestamp field.** So whether a line throws can be read
off its words. -/
theorem timestamp?_parseBody (body : Text) :
    HostBridge.timestamp? (HostCommandCodec.parseBody body) =
      if toUpperInvariant ((words body).headD []) ∈ stampedVerbs then
        some (parseAtol ((words body).getD 3 []) 0)
      else none := by
  have hverb := ConversTokenizer.next_fst ⟨body⟩
  have hfield : (ConversTokenizer.next ⟨body⟩).2.next.2.next.2.next.1 =
      (words body).getD 3 [] := by
    simp only [ConversTokenizer.next_fst, ConversTokenizer.words_next]
    rcases words body with _ | ⟨_, _ | ⟨_, _ | ⟨_, _ | ⟨_, _⟩⟩⟩⟩ <;> rfl
  simp only [HostCommandCodec.parseBody, hverb]
  split
  · rename_i reader hfind
    have hmem := List.mem_of_find?_eq_some hfind
    have hname : reader.1 = toUpperInvariant ((words body).headD []) :=
      of_decide_eq_true (List.find?_some hfind :)
    rw [timestamp?_reader hmem, hname, hfield]
  · rename_i hnone
    have hnot : toUpperInvariant ((words body).headD []) ∉ stampedVerbs := by
      intro hmem
      obtain ⟨reader, hreader, hname⟩ := List.mem_map.mp (stampedVerbs_subset hmem)
      exact List.find?_eq_none.mp hnone reader hreader (decide_eq_true hname)
    rw [if_neg hnot]
    rfl

/-- A computation that only goes on returns exactly when its start does. -/
theorem bind_isOk_iff {α β : Type} (x : Except Fault α) (f : α → β) :
    (∃ r, (x >>= fun a => Except.ok (f a)) = .ok r) ↔ ∃ a, x = .ok a := by
  rcases x with fault | a
  · constructor
    · rintro ⟨r, h⟩
      cases h
    · rintro ⟨a, h⟩
      cases h
  · exact ⟨fun _ => ⟨a, rfl⟩, fun _ => ⟨f a, rfl⟩⟩

/-- While handshaking, the engine returns on the commands the bridge translates. -/
theorem onLineWhileHandshaking_isOk_iff (e : HostLinkEngine) (c : HostCommand) :
    (∃ r, e.onLineWhileHandshaking c = .ok r) ↔ ∃ event, HostBridge.toEvent c = .ok event := by
  have hbridge := bind_isOk_iff (HostBridge.toEvent c)
    (fun event => (e, { EngineStep.none with hubEvents := event.toList }))
  cases c with
  | hostHandshake hostname software facilities => exact ⟨fun _ => ⟨_, rfl⟩, fun _ => ⟨_, rfl⟩⟩
  | _ => exact hbridge

/-- Once established, the engine returns on the commands the bridge translates. -/
theorem onLineWhileEstablished_isOk_iff (now : DateTimeOffset) (e : HostLinkEngine)
    (c : HostCommand) :
    (∃ r, e.onLineWhileEstablished now c = .ok r) ↔ ∃ event, HostBridge.toEvent c = .ok event := by
  have hbridge := bind_isOk_iff (HostBridge.toEvent c)
    (fun event => (e, { EngineStep.none with hubEvents := event.toList }))
  cases c with
  | hostHandshake hostname software facilities => exact ⟨fun _ => ⟨_, rfl⟩, fun _ => ⟨_, rfl⟩⟩
  | hostPong time => exact ⟨fun _ => ⟨_, rfl⟩, fun _ => ⟨_, rfl⟩⟩
  | hostLoop detail => exact ⟨fun _ => ⟨_, rfl⟩, fun _ => ⟨_, rfl⟩⟩
  | hostRoute dest user ttl => exact ⟨fun _ => ⟨_, rfl⟩, fun _ => ⟨_, rfl⟩⟩
  | hostSysInfo user host => exact ⟨fun _ => ⟨_, rfl⟩, fun _ => ⟨_, rfl⟩⟩
  | _ => exact hbridge

/-- What becomes of a line: the codec never fails, and the state of the link decides. -/
theorem onLineReceived_eq (now : DateTimeOffset) (e : HostLinkEngine) (line : Text) :
    e.onLineReceived now line =
      match (HostCommandCodec.stripPrefix line).map HostCommandCodec.parseBody with
      | none => .ok ({ e with lastInbound := now }, EngineStep.none)
      | some parsed =>
        match e.state with
        | .handshaking => { e with lastInbound := now }.onLineWhileHandshaking parsed
        | .established => { e with lastInbound := now }.onLineWhileEstablished now parsed
        | .disconnected => .ok ({ e with lastInbound := now }, EngineStep.none) := by
  rw [onLineReceived, HostCommandCodec.tryParse_eq]
  rfl

/-- A connected engine takes a line when the bridge translates its command. -/
theorem onLineReceived_isOk_toEvent_iff (now : DateTimeOffset) (e : HostLinkEngine)
    (hstate : e.state = .handshaking ∨ e.state = .established) (line : Text) :
    (∃ r, e.onLineReceived now line = .ok r) ↔
      ∀ c, (HostCommandCodec.stripPrefix line).map HostCommandCodec.parseBody = some c →
        ∃ event, HostBridge.toEvent c = .ok event := by
  rw [onLineReceived_eq]
  rcases (HostCommandCodec.stripPrefix line).map HostCommandCodec.parseBody with _ | c
  · exact ⟨fun _ _ hc => (by cases hc), fun _ => ⟨_, rfl⟩⟩
  · simp only [Option.some.injEq, forall_eq']
    rcases hstate with h | h
    · rw [h]
      exact onLineWhileHandshaking_isOk_iff _ _
    · rw [h]
      exact onLineWhileEstablished_isOk_iff now _ _

/-- The bridge translates the command of a line when its timestamp field is a moment. -/
theorem toEvent_isOk_timestampField_iff (line : Text) :
    (∀ c, (HostCommandCodec.stripPrefix line).map HostCommandCodec.parseBody = some c →
        ∃ event, HostBridge.toEvent c = .ok event) ↔
      ∀ seconds ∈ timestampField line, DateTimeOffset.InRange seconds.toInt := by
  rw [timestampField]
  rcases HostCommandCodec.stripPrefix line with _ | body
  · exact ⟨fun _ seconds hs => (by cases hs), fun _ c hc => (by cases hc)⟩
  · simp only [Option.map_some, Option.some.injEq, forall_eq']
    rw [← timestamp?_parseBody, ← HostBridge.toEvent_isOk_iff]

/-- **The lines a connected engine takes**: it returns, in either role, exactly when the timestamp
field of the line, if there is one, is a moment of the years 1 to 9999. A host that sends another
timestamp ends the connection by it. -/
theorem onLineReceived_isOk_iff (now : DateTimeOffset) (e : HostLinkEngine)
    (hstate : e.state = .handshaking ∨ e.state = .established) (line : Text) :
    (∃ r, e.onLineReceived now line = .ok r) ↔
      ∀ seconds ∈ timestampField line, DateTimeOffset.InRange seconds.toInt :=
  (onLineReceived_isOk_toEvent_iff now e hstate line).trans (toEvent_isOk_timestampField_iff line)

/-- An engine at work: the uplink engine of a host, in a given state. -/
def exampleEngine (state : HostLinkState) : HostLinkEngine :=
  { new (HostLinkOptions.ofHostName "NODE".toList) false with state := state }

/-- A topic set in 2001, on an established link. -/
theorem onLineReceived_isOk_topic :
    (∃ r, (exampleEngine .established).onLineReceived defaultTime
        "/..TOPI gb7abc NODE 1000000000 42 hello".toList = .ok r) ↔
      ∀ seconds ∈ timestampField "/..TOPI gb7abc NODE 1000000000 42 hello".toList,
        DateTimeOffset.InRange seconds.toInt :=
  onLineReceived_isOk_iff defaultTime (exampleEngine .established) (Or.inr rfl)
    "/..TOPI gb7abc NODE 1000000000 42 hello".toList

/-- A presence line with a timestamp after the year 9999 is not taken: the engine
throws. -/
theorem onLineReceived_throws_user :
    ¬∃ r, (exampleEngine .established).onLineReceived defaultTime
      "/..USER gb7abc FAR 253402300800 -1 42 @".toList = .ok r := by
  have hthrow : (exampleEngine .established).onLineReceived defaultTime
      "/..USER gb7abc FAR 253402300800 -1 42 @".toList = .error .argumentOutOfRange := by
    decide +kernel
  rw [hthrow]
  rintro ⟨r, h⟩
  cases h

end HostLinkEngine

end Convers
