import Convers.Core.ConversEvent

/-!
# The hub

The presence model of the node: sessions by their id, users by name and host,
channel metadata, operator grants and invitations, and the store behind them.
`Convers.Hub.advance` takes one event at one moment and answers the new state and
the actions to carry out; it makes no input or output and reads no clock.

The handlers stand in the order of the source, the local events first. Each reads
the clock at most once before it changes the state, so the moment is an argument.
-/

namespace Convers

/-- The state of the hub. -/
structure Hub where
  /-- `HostName`. -/
  hostName : Text
  /-- `_sessions`: the local sessions. -/
  sessions : Table LocalSession.id
  /-- `_users`: the users of the network, our own included. -/
  users : Table NetworkUser.key
  /-- `_channels`: the metadata of a channel. -/
  channels : Table.Dict Int32 ChannelState
  /-- `_globalOps`. -/
  globalOps : Finset Text
  /-- `_channelOps`. -/
  channelOps : Table.Dict Int32 (Finset Text)
  /-- `_invites`: the channels a callsign is invited to. -/
  invites : Table.Dict Text (Finset Int32)
  /-- `_store`. -/
  store : Option ConversStore
  deriving DecidableEq

/-- What an event leaves and answers. A fault ends the handler where it is thrown,
with the state it has by then and without actions. -/
structure Answer where
  /-- The state after the event. -/
  hub : Hub
  /-- The actions to carry out, in order. -/
  actions : List ConversAction
  /-- The exception thrown, if any. -/
  fault : Option Fault := none
  deriving DecidableEq

namespace Hub

/-- The constructor of `ConversHub`: the persisted topics are read in. -/
def new (hostName : Text) (store : Option ConversStore) : Except Fault Hub :=
  if isNullOrWhiteSpace hostName then .error .argument
  else
    let topics := match store with
      | some s => s.topics.records
      | none => []
    .ok {
      hostName := Callsigns.normalize hostName
      sessions := Table.empty
      users := Table.empty
      channels := topics.foldl (fun channels t => channels.set t.channel
        { ChannelState.new with
          topic := t.topic, topicSetBy := t.setBy, topicSetAt := some t.setAt }) Table.empty
      globalOps := ∅
      channelOps := Table.empty
      invites := Table.empty
      store := store }

/-- The hub of a host that keeps nothing. -/
def fresh (hostName : Text) : Hub where
  hostName := Callsigns.normalize hostName
  sessions := Table.empty
  users := Table.empty
  channels := Table.empty
  globalOps := ∅
  channelOps := Table.empty
  invites := Table.empty
  store := none

/-- Without a store the constructor gives the fresh hub. -/
theorem new_none {hostName : Text} (h : isNullOrWhiteSpace hostName = false) :
    new hostName none = .ok (fresh hostName) := by
  rw [new, if_neg (by simp [h])]
  rfl

/-! ### Helpers -/

/-- The entry of a session in the user table. -/
def localUser (h : Hub) (session : LocalSession) : NetworkUser where
  name := session.callsign
  host := h.hostName
  channel := session.channel
  personal := session.personal
  nickname := session.nickname
  away := session.away
  isObserver := false
  isOperator := session.isOperator
  joinedAt := session.joinedAt

/-- `_sessions[session.Id] = session`. -/
def putSession (h : Hub) (session : LocalSession) : Hub :=
  { h with sessions := h.sessions.put session }

/-- `UpsertLocalUser`. -/
def upsertLocalUser (h : Hub) (session : LocalSession) : Hub :=
  { h with users := h.users.put (h.localUser session) }

/-- `RemoveLocalUser`. -/
def removeLocalUser (h : Hub) (callsign : Text) : Hub :=
  { h with users := h.users.remove (callsign, h.hostName) }

/-- `ModesOf`. -/
def modesOf (h : Hub) (channel : Int32) : ChannelMode :=
  match h.channels.get? channel with
  | some state => state.modes
  | none => ∅

/-- The metadata of a channel, new when it has none. -/
def channelState (h : Hub) (channel : Int32) : ChannelState :=
  (h.channels.get? channel).getD ChannelState.new

/-- `SetModes`. -/
def setModes (h : Hub) (channel : Int32) (modes : ChannelMode) : Hub :=
  { h with channels := h.channels.set channel { h.channelState channel with modes := modes } }

/-- `IsGlobalOperator`. -/
def isGlobalOperator (h : Hub) (callsign : Text) : Bool :=
  Callsigns.normalize callsign ∈ h.globalOps

/-- `IsChannelOperator`. -/
def isChannelOperator (h : Hub) (callsign : Text) (channel : Int32) : Bool :=
  match h.channelOps.get? channel with
  | some ops => Callsigns.normalize callsign ∈ ops
  | none => false

/-- `ApplyOperator`: grant or revoke, for all channels below 0. -/
def applyOperator (h : Hub) (callsign : Text) (channel : Int32) (grant : Bool) : Hub :=
  let call := Callsigns.normalize callsign
  if channel < 0 then
    { h with globalOps := if grant then insert call h.globalOps else h.globalOps.erase call }
  else if grant then
    let ops := insert call ((h.channelOps.get? channel).getD ∅)
    { h with channelOps := h.channelOps.set channel ops }
  else
    match h.channelOps.get? channel with
    | some ops => { h with channelOps := h.channelOps.set channel (ops.erase call) }
    | none => h

/-- One turn of the loop of `RefreshSessionOpFlags`. -/
def refreshSession (call : Text) (h : Hub) (s : LocalSession) : Hub :=
  if Callsigns.equal s.callsign call then
    let isOp := h.isGlobalOperator call || h.isChannelOperator call s.channel
    if isOp ≠ s.isOperator then
      let updated := { s with isOperator := isOp }
      (h.putSession updated).upsertLocalUser updated
    else h
  else h

/-- `RefreshSessionOpFlags`, over a snapshot of the sessions. -/
def refreshSessionOpFlags (h : Hub) (callsign : Text) : Hub :=
  h.sessions.records.foldl (refreshSession (Callsigns.normalize callsign)) h

/-- `InvitesFor`. -/
def invitesFor (h : Hub) (callsign : Text) : Finset Int32 :=
  (h.invites.get? (Callsigns.normalize callsign)).getD ∅

/-- `IsInvitedTo`. -/
def isInvitedTo (h : Hub) (callsign : Text) (channel : Int32) : Bool :=
  match h.invites.get? (Callsigns.normalize callsign) with
  | some channels => channel ∈ channels
  | none => false

/-- `RecordInvite`: the invitation is kept, and shown to the live sessions. -/
def recordInvite (h : Hub) (callsign : Text) (channel : Int32) : Hub :=
  let call := Callsigns.normalize callsign
  let channels := insert channel ((h.invites.get? call).getD ∅)
  let h := { h with invites := h.invites.set call channels }
  h.sessions.records.foldl (fun h s =>
    if Callsigns.equal s.callsign call then
      h.putSession { s with invitedChannels := h.invitesFor call }
    else h) h

/-- `FindRemoteUser`. -/
def findRemoteUser (h : Hub) (name : Text) : Option NetworkUser :=
  h.users.records.find? fun u =>
    Callsigns.equal u.name name && !Callsigns.equal u.host h.hostName

/-- The sessions on a channel except one, in order; what the fan-outs loop over. -/
def sessionsOn (h : Hub) (channel : Int32) (exceptSession : Option Text) : List LocalSession :=
  h.sessions.records.filter fun s => s.channel = channel && some s.id ≠ exceptSession

/-- The sessions of a callsign, in order. -/
def sessionsOf (h : Hub) (callsign : Text) : List LocalSession :=
  h.sessions.records.filter fun s => Callsigns.equal s.callsign callsign

/-- `DeliverToChannel`. -/
def deliverToChannel (h : Hub) (channel : Int32) (fromUser text : Text)
    (exceptSession : Option Text) : List ConversAction :=
  (h.sessionsOn channel exceptSession).map fun s =>
    .deliverChannelMessage s.id channel fromUser text

/-- `NotifyChannelJoin`. -/
def notifyChannelJoin (h : Hub) (channel : Int32) (user : Text) (exceptSession : Option Text) :
    List ConversAction :=
  (h.sessionsOn channel exceptSession).map fun s => .deliverJoinNotice s.id channel user

/-- `NotifyChannelLeave`. -/
def notifyChannelLeave (h : Hub) (channel : Int32) (user reason : Text)
    (exceptSession : Option Text) : List ConversAction :=
  (h.sessionsOn channel exceptSession).map fun s => .deliverLeaveNotice s.id channel user reason

/-- `NotifyTopic`. -/
def notifyTopic (h : Hub) (channel : Int32) (topic setBy : Text) : List ConversAction :=
  (h.sessionsOn channel none).map fun s => .deliverTopic s.id channel topic setBy

/-- `NotifyModeChange`. -/
def notifyModeChange (h : Hub) (channel : Int32) (modes : ChannelMode) : List ConversAction :=
  (h.sessionsOn channel none).map fun s => .deliverModeChange s.id channel modes

/-- `TopicNoticeFor`. -/
def topicNoticeFor (h : Hub) (sessionId : Text) (channel : Int32) : List ConversAction :=
  match h.channels.get? channel with
  | some state =>
    if state.topic.length ≠ 0 then [.deliverTopic sessionId channel state.topic state.topicSetBy]
    else []
  | none => []

/-- `ApplyTopic`, written through to the store. -/
def applyTopic (h : Hub) (channel : Int32) (topic setBy : Text) (setAt : DateTimeOffset) : Hub :=
  { h with
    channels := h.channels.set channel { h.channelState channel with
      topic := topic, topicSetBy := setBy, topicSetAt := some setAt }
    store := h.store.map fun s =>
      s.upsertTopic { channel := channel, topic := topic, setBy := setBy, setAt := setAt } }

/-- `PersistProfile`. -/
def persistProfile (now : DateTimeOffset) (h : Hub) (session : LocalSession) : Except Fault Hub :=
  match h.store with
  | none => .ok h
  | some store => do
    let existing := (store.getProfile session.callsign).getD
      { callsign := session.callsign, personal := [], nickname := [], passwordHash := none,
        updatedAt := ⟨0, zero_ticks_le⟩ }
    let store ← store.upsertProfile { existing with
      personal := session.personal, nickname := session.nickname, updatedAt := now }
    .ok { h with store := some store }

/-- `ResolvePersonal`: a lone `@` is no personal text. -/
def resolvePersonal (raw : Text) : Text :=
  let trimmed := trim raw
  if trimmed = ['@'] ∨ trimmed = [] then [] else trimmed

/-- `MakePersonalConsistent`: the brand of an unauthenticated user is stripped. -/
def makePersonalConsistent (personal : Text) : Text :=
  let trimmed := trim personal
  if trimmed.head? = some '~' then trimStart (trimmed.dropWhile (· = '~')) else trimmed

/-! ### Local events -/

/-- Nothing happens. -/
def ignore (h : Hub) : Answer := ⟨h, [], none⟩

/-- A refusal: a notice to the session, and no change. -/
def refuse (h : Hub) (sessionId : Text) (channel : Int32) (reason : String) : Answer :=
  ⟨h, [.deliverModeNotice sessionId channel reason.toList], none⟩

/-- `LocalJoin`. -/
def localJoin (now : DateTimeOffset) (h : Hub) (sessionId callsign : Text) (channel : Int32) :
    Answer :=
  if !ChannelNumber.isValid channel then h.ignore
  else
    let call := Callsigns.normalize callsign
    if ChannelModes.requiresInvite (h.modesOf channel) &&
        !h.isInvitedTo call channel && !h.isGlobalOperator call then
      h.refuse sessionId channel "That channel is invitation-only."
    else
      let profile := h.store.bind (·.getProfile call)
      let personal := (profile.map UserProfile.personal).getD []
      let nickname := (profile.map UserProfile.nickname).getD []
      let session : LocalSession :=
        { id := sessionId, callsign := call, channel := channel, personal := personal,
          nickname := nickname, away := [], isOperator := h.isGlobalOperator call,
          invitedChannels := h.invitesFor call, joinedAt := now }
      let h := (h.putSession session).upsertLocalUser session
      ⟨h, .sendUser call h.hostName now (-1) channel personal ::
        (h.notifyChannelJoin channel call (some sessionId) ++ h.topicNoticeFor sessionId channel),
        none⟩

/-- `LocalSwitchChannel`. -/
def localSwitchChannel (now : DateTimeOffset) (h : Hub) (sessionId : Text) (channel : Int32) :
    Answer :=
  match h.sessions.find? sessionId with
  | none => h.ignore
  | some session =>
    if !ChannelNumber.isValid channel then h.ignore
    else if session.channel = channel then h.ignore
    else if ChannelModes.requiresInvite (h.modesOf channel) &&
        !session.isOperator && channel ∉ session.invitedChannels then
      h.refuse sessionId channel "That channel is invitation-only."
    else
      let source := session.channel
      let leave := h.notifyChannelLeave source session.callsign "switched channel".toList
        (some sessionId)
      let opOnNew := h.isGlobalOperator session.callsign ||
        h.isChannelOperator session.callsign channel
      let session := { session with channel := channel, isOperator := opOnNew, joinedAt := now }
      let h := (h.putSession session).upsertLocalUser session
      ⟨h, leave ++ .sendUser session.callsign h.hostName now source channel session.personal ::
        (h.notifyChannelJoin channel session.callsign (some sessionId) ++
          h.topicNoticeFor sessionId channel), none⟩

/-- `LocalSay`. -/
def localSay (h : Hub) (sessionId text : Text) : Answer :=
  match h.sessions.find? sessionId with
  | none => h.ignore
  | some session =>
    if text.length = 0 then h.ignore
    else
      let modes := h.modesOf session.channel
      if .moderated ∈ modes ∧ !session.isOperator then
        h.refuse sessionId session.channel
          "This is a moderated channel. Only channel operators may write."
      else
        -- a local channel is not forwarded to the links
        let send := if .localFlag ∈ modes then []
          else [.sendChannelMessage session.callsign session.channel text]
        ⟨h, send ++ h.deliverToChannel session.channel session.callsign text (some sessionId), none⟩

/-- `LocalPrivateMessage`. -/
def localPrivateMessage (h : Hub) (sessionId toUser text : Text) : Answer :=
  match h.sessions.find? sessionId with
  | none => h.ignore
  | some session =>
    if text.length = 0 then h.ignore
    else
      let target := Callsigns.normalize toUser
      let targets := h.sessionsOf target
      let delivered := targets.flatMap fun s =>
        .deliverPrivateMessage s.id session.callsign text ::
          if s.isAway then [.deliverAwayNotice sessionId s.callsign s.away] else []
      let hint :=
        if targets.length = 0 then
          match h.findRemoteUser target with
          | some remote =>
            if remote.isAway then [.deliverAwayNotice sessionId remote.name remote.away] else []
          | none => []
        else []
      ⟨h, delivered ++ hint ++ [.sendPrivateMessage session.callsign target text], none⟩

/-- `LocalSetPersonal`. -/
def localSetPersonal (now : DateTimeOffset) (h : Hub) (sessionId personal : Text) : Answer :=
  match h.sessions.find? sessionId with
  | none => h.ignore
  | some session =>
    let personal := makePersonalConsistent personal
    let session := { session with personal := personal }
    let h := (h.putSession session).upsertLocalUser session
    match h.persistProfile now session with
    | .error fault => ⟨h, [], some fault⟩
    | .ok h => ⟨h, [.sendPersonal session.callsign h.hostName personal], none⟩

/-- `LocalSetAway`. -/
def localSetAway (now : DateTimeOffset) (h : Hub) (sessionId away : Text) : Answer :=
  match h.sessions.find? sessionId with
  | none => h.ignore
  | some session =>
    let away := trim away
    let session := { session with away := away }
    let h := (h.putSession session).upsertLocalUser session
    ⟨h, [.sendAway session.callsign h.hostName now away], none⟩

/-- `LocalSetTopic`. -/
def localSetTopic (now : DateTimeOffset) (h : Hub) (sessionId topic : Text) : Answer :=
  match h.sessions.find? sessionId with
  | none => h.ignore
  | some session =>
    if .topicLocked ∈ h.modesOf session.channel ∧ !session.isOperator then
      h.refuse sessionId session.channel
        "The topic on this channel may be set by channel operators only."
    else
      let topic := trim topic
      let h := h.applyTopic session.channel topic session.callsign now
      ⟨h, .sendTopic session.callsign h.hostName now session.channel topic ::
        h.notifyTopic session.channel topic session.callsign, none⟩

/-- `LocalInvite`. -/
def localInvite (h : Hub) (sessionId toUser : Text) (channel : Int32) : Answer :=
  match h.sessions.find? sessionId with
  | none => h.ignore
  | some session =>
    if !ChannelNumber.isValid channel then h.ignore
    else
      let target := Callsigns.normalize toUser
      let h := h.recordInvite target channel
      ⟨h, (h.sessionsOf target).map (fun s => .deliverInvite s.id session.callsign channel) ++
        [.sendInvite session.callsign target channel], none⟩

/-- `LocalSetMode`. -/
def localSetMode (h : Hub) (sessionId : Text) (channel : Int32) (options : Text) : Answer :=
  match h.sessions.find? sessionId with
  | none => h.ignore
  | some session =>
    if !ChannelNumber.isValid channel then h.ignore
    else if !h.isGlobalOperator session.callsign &&
        !h.isChannelOperator session.callsign channel then
      h.refuse sessionId channel "You must be a channel operator to set modes."
    else
      let before := h.modesOf channel
      let after := ChannelModes.apply before options (channel = ChannelNumber.random)
      if after = before then h.ignore
      else
        let h := h.setModes channel after
        ⟨h, .sendMode channel (ChannelModes.toWire after) :: h.notifyModeChange channel after,
          none⟩

/-- `LocalSetOperator`. -/
def localSetOperator (h : Hub) (sessionId : Text) (channel : Int32) (grant : Bool) : Answer :=
  match h.sessions.find? sessionId with
  | none => h.ignore
  | some session =>
    ⟨(h.applyOperator session.callsign channel grant).refreshSessionOpFlags session.callsign, [],
      none⟩

/-- `LocalLeave`. -/
def localLeave (now : DateTimeOffset) (h : Hub) (sessionId reason : Text) : Answer :=
  match h.sessions.find? sessionId with
  | none => h.ignore
  | some session =>
    let h := { h with sessions := h.sessions.remove sessionId }.removeLocalUser session.callsign
    ⟨h, .sendUser session.callsign h.hostName now session.channel (-1) reason ::
      h.notifyChannelLeave session.channel session.callsign reason (some sessionId), none⟩

/-! ### Host events -/

/-- `HostUser`. -/
def hostUser (h : Hub) (user host : Text) (timestamp : DateTimeOffset)
    (fromChannel toChannel : Int32) (personal : Text) (observer : Bool) : Answer :=
  let user := Callsigns.normalize user
  let host := Callsigns.normalize host
  if !Callsigns.isValidName user || !Callsigns.isValidName host then h.ignore
  -- we are the authority for our own users
  else if Callsigns.equal host h.hostName then h.ignore
  else
    let resolved := resolvePersonal personal
    let existing := h.users.find? (user, host)
    if toChannel = -1 then
      match existing with
      | none => h.ignore
      | some leaving =>
        let h := { h with users := h.users.remove (user, host) }
        ⟨h, h.notifyChannelLeave leaving.channel user personal none, none⟩
    else if !ChannelNumber.isValid toChannel then h.ignore
    else
      let source := (existing.map NetworkUser.channel).getD fromChannel
      let entry : NetworkUser :=
        { name := user, host := host, channel := toChannel,
          personal :=
            if resolved.length = 0 then (existing.map NetworkUser.personal).getD [] else resolved,
          nickname := (existing.map NetworkUser.nickname).getD [],
          away := (existing.map NetworkUser.away).getD [],
          isObserver := observer, isOperator := false, joinedAt := timestamp }
      let h := { h with users := h.users.put entry }
      let leave :=
        if existing.isSome ∧ source ≥ 0 ∧ source ≠ toChannel then
          h.notifyChannelLeave source user "switched channel".toList none
        else []
      ⟨h, leave ++ h.notifyChannelJoin toChannel user none, none⟩

/-- `HostChannelMessage`. -/
def hostChannelMessage (h : Hub) (user : Text) (channel : Int32) (text : Text) : Answer :=
  if text.length = 0 || !ChannelNumber.isValid channel then h.ignore
  else ⟨h, h.deliverToChannel channel (Callsigns.normalize user) text none, none⟩

/-- `HostPrivateMessage`. -/
def hostPrivateMessage (h : Hub) (source target text : Text) : Answer :=
  if text.length = 0 then h.ignore
  else
    let target := Callsigns.normalize target
    let source := Callsigns.normalize source
    ⟨h, (h.sessionsOf target).map fun s => .deliverPrivateMessage s.id source text, none⟩

/-- `HostPersonal`. -/
def hostPersonal (h : Hub) (user host text : Text) : Answer :=
  let user := Callsigns.normalize user
  let host := Callsigns.normalize host
  match h.users.find? (user, host) with
  | none => h.ignore
  | some existing =>
    ⟨{ h with users := h.users.put { existing with personal := resolvePersonal text } }, [], none⟩

/-- `HostAway`. -/
def hostAway (h : Hub) (user host text : Text) : Answer :=
  let user := Callsigns.normalize user
  let host := Callsigns.normalize host
  match h.users.find? (user, host) with
  | none => h.ignore
  | some existing => ⟨{ h with users := h.users.put { existing with away := trim text } }, [], none⟩

/-- `HostTopic`: a newer topic stays. -/
def hostTopic (h : Hub) (user : Text) (timestamp : DateTimeOffset) (channel : Int32) (text : Text) :
    Answer :=
  if !ChannelNumber.isValid channel then h.ignore
  else if ((h.channels.get? channel).bind ChannelState.topicSetAt).any
      (·.ticks > timestamp.ticks) then h.ignore
  else
    let user := Callsigns.normalize user
    let topic := trim text
    let h := h.applyTopic channel topic user timestamp
    ⟨h, h.notifyTopic channel topic user, none⟩

/-- `HostInvite`. -/
def hostInvite (h : Hub) (source user : Text) (channel : Int32) : Answer :=
  if !ChannelNumber.isValid channel then h.ignore
  else
    let user := Callsigns.normalize user
    let source := Callsigns.normalize source
    let h := h.recordInvite user channel
    ⟨h, (h.sessionsOf user).map fun s => .deliverInvite s.id source channel, none⟩

/-- `HostMode`. -/
def hostMode (h : Hub) (channel : Int32) (options : Text) : Answer :=
  if !ChannelNumber.isValid channel then h.ignore
  else
    let before := h.modesOf channel
    let after := ChannelModes.apply before options (channel = ChannelNumber.random)
    if after = before then h.ignore
    else
      let h := h.setModes channel after
      ⟨h, h.notifyModeChange channel after, none⟩

/-- `HostOper`. -/
def hostOper (h : Hub) (user host : Text) (channel : Int32) (grant : Bool) : Answer :=
  let user := Callsigns.normalize user
  if !Callsigns.isValidName user then h.ignore
  else
    let h := (h.applyOperator user channel grant).refreshSessionOpFlags user
    let host := Callsigns.normalize host
    match h.users.find? (user, host) with
    | none => h.ignore
    | some remote =>
      let isOp := h.isGlobalOperator user || h.isChannelOperator user remote.channel
      ⟨{ h with users := h.users.put { remote with isOperator := isOp } }, [], none⟩

/-- `PongSentinelNoMeasurement`. -/
def pongSentinelNoMeasurement : Int64 := -1

/-- `ConversHub.Advance`. -/
def advance (now : DateTimeOffset) (h : Hub) : ConversEvent → Answer
  | .localJoin sessionId callsign channel => h.localJoin now sessionId callsign channel
  | .localSwitchChannel sessionId channel => h.localSwitchChannel now sessionId channel
  | .localSay sessionId text => h.localSay sessionId text
  | .localPrivateMessage sessionId toUser text => h.localPrivateMessage sessionId toUser text
  | .localSetPersonal sessionId personal => h.localSetPersonal now sessionId personal
  | .localSetAway sessionId away => h.localSetAway now sessionId away
  | .localSetTopic sessionId topic => h.localSetTopic now sessionId topic
  | .localInvite sessionId toUser channel => h.localInvite sessionId toUser channel
  | .localSetMode sessionId channel options => h.localSetMode sessionId channel options
  | .localSetOperator sessionId channel grant => h.localSetOperator sessionId channel grant
  | .localLeave sessionId reason => h.localLeave now sessionId reason
  | .hostUser user host timestamp fromChannel toChannel personal observer =>
    h.hostUser user host timestamp fromChannel toChannel personal observer
  | .hostChannelMessage user channel text => h.hostChannelMessage user channel text
  | .hostPrivateMessage source target text => h.hostPrivateMessage source target text
  | .hostPersonal user host text => h.hostPersonal user host text
  | .hostAway user host _ text => h.hostAway user host text
  | .hostTopic user _ timestamp channel text => h.hostTopic user timestamp channel text
  | .hostInvite source user channel => h.hostInvite source user channel
  | .hostMode channel options => h.hostMode channel options
  | .hostOper user host channel grant => h.hostOper user host channel grant
  | .hostPing => ⟨h, [.sendPong pongSentinelNoMeasurement], none⟩
  | .hostPong _ => h.ignore
  | .hostLoop host => ⟨h, [.dropUplink ("loop via ".toList ++ host)], none⟩
  | .hostUnknown _ => h.ignore

/-! ### What a reader sees -/

/-- The UTF-16 code units of a string, which the ordinal order compares. -/
def codeUnits (t : Text) : List ℕ :=
  t.flatMap fun c =>
    if c.toNat < 0x10000 then [c.toNat]
    else [0xD800 + (c.toNat - 0x10000) / 0x400, 0xDC00 + (c.toNat - 0x10000) % 0x400]

/-- The order of `NetworkUsers`: by name, then by host. -/
def userLE (u v : NetworkUser) : Bool :=
  if codeUnits u.name = codeUnits v.name then codeUnits u.host ≤ codeUnits v.host
  else codeUnits u.name ≤ codeUnits v.name

/-- `NetworkUsers`. -/
def networkUsers (h : Hub) : List NetworkUser := h.users.records.mergeSort userLE

/-- The numbers of `ListChannels`, hidden ones included. -/
def listChannels (h : Hub) : List Int32 :=
  (h.users.records.map NetworkUser.channel ++ h.channels.records.map Prod.fst).dedup.mergeSort
    (· ≤ ·)

end Hub

end Convers
