import Convers.Console.Vocabulary
import Convers.Host.WebChat
import Convers.Lib.Script

/-!
# The sessions of the users

A user is here on a radio link or on the web. Each session is a task beside the owning loop: it
hands the loop its events, asks for snapshots of the hub and writes what it has to say, so it is a
`Script`. What the tasks share is the registry of the sinks and the web sessions
(`Convers.Shared`). A page of a channel is a report on the chat log: it is the last thing its
request does.

A line of a radio link comes parsed.
-/

namespace Convers

/-- A sink of `LocalSessionRegistry`: of a radio link what is delivered is written to the terminal,
of a web session it goes to a buffer that nothing reads. -/
structure Sink where
  id : Text
  call : Text
  isTerminal : Bool
  deriving DecidableEq

/-- A `WebSession`, which is an object: a request keeps the one it got. -/
structure WebSession where
  ref : ℕ
  callsign : Text
  /-- The channel it was last asked for. -/
  channel : Int32
  lastSeen : DateTimeOffset
  deriving DecidableEq

/-- What the tasks share. -/
structure Shared where
  /-- `LocalSessionRegistry._sinks`. -/
  sinks : Table Sink.id
  /-- The web sessions there have been. -/
  webSessions : Table WebSession.ref
  /-- `WebChatSessions._sessions`: the session a callsign has now. -/
  sessionOf : Table.Dict Text ℕ

namespace Shared

/-- Nobody is here. -/
def empty : Shared := ⟨Table.empty, Table.empty, Table.empty⟩

variable (w : Shared)

/-- `Register`. -/
def register (sink : Sink) : Shared := { w with sinks := w.sinks.put sink }

/-- `Unregister`. -/
def unregister (id : Text) : Shared := { w with sinks := w.sinks.remove id }

/-- The web session a callsign has. -/
def webSession? (call : Text) : Option WebSession :=
  (w.sessionOf.get? call).bind w.webSessions.find?

/-- A web session is changed. -/
def putWebSession (session : WebSession) : Shared :=
  { w with webSessions := w.webSessions.put session }

/-- The next object. -/
def newRef : ℕ := w.webSessions.records.length

/-- A callsign gets a new web session. -/
def addWebSession (call : Text) (channel : Int32) (now : DateTimeOffset) : Shared :=
  { w.putWebSession ⟨w.newRef, call, channel, now⟩ with
    sessionOf := w.sessionOf.set call w.newRef }

end Shared

/-- The task of a session or of a request. -/
abbrev SessionScript := Script DateTimeOffset Shared Hub ConversEvent Text WebChat.ChannelView

/-! ### Radio links -/

/-- `ConsoleIntent`. -/
inductive ConsoleIntent where
  | empty
  | say (text : Text)
  | join (channel : Option Int32)
  | msg (toUser text : Text)
  | topic (text : Text)
  | personal (text : Text)
  | who (argument : Text)
  | invite (user : Text) (channel : Option Int32)
  | away (text : Text)
  | mode (channel : Option Int32) (options : Text)
  | oper (secret : Text)
  | leave (reason : Text)
  | quit (reason : Text)
  | help (subject : Text)
  | unknown (raw : Text)
  deriving DecidableEq

/-- `RfSessionConfig`. -/
structure RfSessionConfig where
  nodeName : Text
  defaultChannel : Int32
  pageLength : Int32
  isClassic : Bool
  operatorSecret : Text
  deriving DecidableEq

namespace RfUserSession

/-- `WriteLineAsync`, and what comes after. -/
def tell (line : Text) (next : SessionScript) : SessionScript := .write (writeLine line) next

/-- `CurrentChannelAsync`. -/
def currentChannel (config : RfSessionConfig) (sessionId : Text) (next : Int32 → SessionScript) :
    SessionScript :=
  .snapshot fun h _ =>
    next (((h.sessions.find? sessionId).map LocalSession.channel).getD config.defaultChannel)

/-- `ShowTopicAsync`. -/
def showTopic (channel : Int32) (announceNone : Bool) (next : SessionScript) : SessionScript :=
  .snapshot fun h _ =>
    let ch := h.getChannel channel
    if ch.topic.length = 0 then
      if announceNone then
        tell ("No topic set on channel ".toList ++ decimal channel.toInt ++ ['.']) next
      else next
    else
      tell ("*** Topic of channel ".toList ++ decimal channel.toInt ++ ": ".toList ++ ch.topic ++
        if ch.topicSetBy.length = 0 then [] else " (set by ".toList ++ ch.topicSetBy ++ [')']) next

/-- The line that tells a user his channel. -/
def onChannel (channel : Int32) : Text :=
  "You are on channel ".toList ++ decimal channel.toInt ++ ['.']

/-- The line that tells the modes of a channel. -/
def modesLine (h : Hub) (channel : Int32) : Text :=
  "*** Channel ".toList ++ decimal channel.toInt ++ " modes: ".toList ++
    ChannelModes.toWire (h.getChannel channel).modes

/-- The loop of `WritePagedAsync`. -/
def paged (pageLength : Int32) : ℕ → List Text → SessionScript
  | _, [] => .done
  | sincePrompt, line :: lines =>
    tell line
      (if pageLength > 0 ∧ (sincePrompt + 1 : ℤ) ≥ pageLength.toInt ∧ lines ≠ [] then
        tell "<A>bort, <CR> Continue..>".toList (.read fun response =>
          let response := toUpperInvariant (trim response)
          if response = ['A'] ∨ response = "ABORT".toList then tell "Output aborted".toList .done
          else paged pageLength 0 lines)
      else paged pageLength (sincePrompt + 1) lines)

/-- **A listing in pages** writes what `writePaged` has, with the answers at the prompts. -/
theorem outputs_paged (pageLength : Int32) (sincePrompt : ℕ) (responses lines : List Text) :
    (paged pageLength sincePrompt lines).outputs responses =
      writePaged pageLength sincePrompt responses lines := by
  induction lines generalizing sincePrompt responses with
  | nil => rfl
  | cons line lines ih =>
    rw [paged, writePaged.eq_def, tell, Script.outputs]
    dsimp only
    refine congrArg _ ?_
    split
    · -- a prompt, and its answer
      rw [tell, Script.outputs, Script.outputs.eq_def]
      dsimp only
      rcases responses with _ | ⟨response, responses⟩
      · rfl
      · refine congrArg _ ?_
        dsimp only
        split
        · rfl
        · exact ih 0 responses
    · exact ih (sincePrompt + 1) responses

/-- `GreetAndJoinAsync`. -/
def greetAndJoin (config : RfSessionConfig) (sessionId call : Text) : SessionScript :=
  tell ('[' :: config.nodeName ++ " convers] Welcome ".toList ++ call ++ ['.'])
    (.submit (.localJoin sessionId call config.defaultChannel)
      (showTopic config.defaultChannel false
        (tell (onChannel config.defaultChannel)
          (tell (if config.isClassic then "Classic mode. Type /help for commands.".toList
            else "Type 'help' for commands, or just type to chat.".toList) .done))))

/-- The session ends. -/
def unregister (sessionId : Text) : SessionScript :=
  .act (fun _ w => w.unregister sessionId) fun _ _ => .done

/-- `SignOffLine`. -/
def signOffLine (config : RfSessionConfig) (reason : Text) : Text :=
  "73 de ".toList ++ config.nodeName ++
    if (trim reason).length = 0 then [] else " (".toList ++ trim reason ++ [')']

/-- The session is left, and the terminal told so. -/
def signOff (config : RfSessionConfig) (sessionId reason shown : Text) : SessionScript :=
  .submit (.localLeave sessionId reason)
    (tell (signOffLine config shown) (unregister sessionId))

/-- The terminal has closed. -/
def drop (sessionId : Text) : SessionScript :=
  .submit (.localLeave sessionId "link lost".toList) (unregister sessionId)

/-- `HandleModeAsync`. -/
def handleMode (config : RfSessionConfig) (sessionId : Text) (channel : Option Int32)
    (options : Text) : SessionScript :=
  currentChannel config sessionId fun current =>
    let channel := channel.getD current
    if (trim options).length = 0 then .snapshot fun h _ => tell (modesLine h channel) .done
    else
      .submit (.localSetMode sessionId channel options)
        (if channel ≠ current then .snapshot fun h _ => tell (modesLine h channel) .done else .done)

/-- `HandleOperAsync`. -/
def handleOper (config : RfSessionConfig) (sessionId secret : Text) : SessionScript :=
  if secret.length = 0 then tell "Usage: oper <secret>".toList .done
  else if config.operatorSecret.length = 0 ∨ secret ≠ config.operatorSecret then
    tell "Sorry, operator access denied.".toList .done
  else
    .submit (.localSetOperator sessionId (-1) true)
      (tell "*** You are now an operator.".toList .done)

/-- `HandleInviteAsync`. -/
def handleInvite (config : RfSessionConfig) (sessionId user : Text) (channel : Option Int32) :
    SessionScript :=
  let invite := fun channel => .submit (.localInvite sessionId user channel)
    (tell ("Invited ".toList ++ user ++ " to channel ".toList ++ decimal channel.toInt ++ ['.'])
      .done)
  match channel with
  | some channel => invite channel
  | none => currentChannel config sessionId invite

/-- `HandleAsync`, and the two intents that end the session. -/
def handle (config : RfSessionConfig) (sessionId : Text) : ConsoleIntent → SessionScript
  | .empty => .done
  | .say text => if text.length = 0 then .done else .submit (.localSay sessionId text) .done
  | .join none =>
    currentChannel config sessionId fun current => tell (onChannel current) .done
  | .join (some channel) =>
    .submit (.localSwitchChannel sessionId channel)
      (showTopic channel false (tell (onChannel channel) .done))
  | .msg toUser text => .submit (.localPrivateMessage sessionId toUser text) .done
  | .topic text =>
    if (trim text).length = 0 then
      currentChannel config sessionId fun current => showTopic current true .done
    else .submit (.localSetTopic sessionId text) .done
  | .personal text =>
    .submit (.localSetPersonal sessionId text)
      (tell (if (trim text).length = 0 then "Personal text cleared.".toList
        else "Personal text set: ".toList ++ trim text) .done)
  | .away text =>
    .submit (.localSetAway sessionId text)
      (tell (if (trim text).length = 0 then "You are back.".toList
        else "You are away: ".toList ++ trim text) .done)
  | .mode channel options => handleMode config sessionId channel options
  | .oper secret => handleOper config sessionId secret
  | .who argument =>
    .snapshot fun h _ =>
      paged config.pageLength 0 (handleWho h sessionId config.defaultChannel argument)
  | .invite user channel => handleInvite config sessionId user channel
  | .help subject => paged config.pageLength 0 (ConsoleHelp.lines config.isClassic subject)
  | .unknown raw =>
    tell ((if config.isClassic then "Unknown command. Type /help for a list. (".toList
      else "Sorry, I didn't understand that. Type 'help' for commands. (".toList) ++
        trim raw ++ [')']) .done
  | .quit reason => signOff config sessionId reason reason
  | .leave reason =>
    signOff config sessionId (if reason.length = 0 then "leaving".toList else reason) reason

/-- **What `who` writes is the listing of the users**, of the hub at the moment of the snapshot and
with the answers at the prompts. -/
theorem outputs_handle_who (config : RfSessionConfig) (sessionId argument : Text) (h : Hub)
    (w : Shared) (responses : List Text) :
    ((handle config sessionId (.who argument)).resume h w).outputs responses =
      whoOutput h sessionId config.defaultChannel config.pageLength argument responses :=
  outputs_paged config.pageLength 0 responses _

end RfUserSession

/-! ### The web -/

namespace WebChatSessions

/-- The id of a web session. -/
def webId (call : Text) : Text := "web-".toList ++ call

/-- `IdleTimeout`, in ticks. -/
def idleTimeout : ℕ := 15 * 60 * 10000000

/-- Whether a web session goes: it has been idle too long and is still the one of its callsign. -/
def isIdle (now : DateTimeOffset) (w : Shared) (session : WebSession) : Bool :=
  (w.webSessions.find? session.ref).any (fun s => now.ticks - s.lastSeen.ticks ≥ idleTimeout) &&
    w.sessionOf.get? session.callsign = some session.ref

/-- The loop of `SweepIdle`. The source tests a session and then removes it; here that is one step.
No order of the steps is lost: their moments need not rise, so a session that another request
touches between the test and the removal is one that it touches before both, at an early moment. -/
def sweep (now : DateTimeOffset) : List WebSession → SessionScript → SessionScript
  | [], next => next
  | session :: sessions, next =>
    .act
      (fun _ w => if isIdle now w session then
        { w with sessionOf := w.sessionOf.remove session.callsign } else w)
      fun _ w =>
        if isIdle now w session then
          .submit (.localLeave (webId session.callsign) "web session idle".toList)
            (.act (fun _ w => w.unregister (webId session.callsign)) fun _ _ =>
              sweep now sessions next)
        else sweep now sessions next

/-- `SweepIdle`, of the sessions there are when it starts. -/
def sweepIdle (next : SessionScript) : SessionScript :=
  .act (fun _ w => w) fun now w =>
    sweep now (w.sessionOf.records.filterMap fun entry => w.webSessions.find? entry.2) next

/-- `GetOrCreateAsync`: a new session is registered before it joins. The lookup, the touch and the
`GetOrAdd` are one step here, and no order of the steps is lost: a request that adopts the session
of another is one that finds it, and one whose session is swept before the touch is one that touches
it before the sweep, at an early moment. -/
def getOrCreate (defaultChannel : Int32) (call : Text) (next : ℕ → SessionScript) :
    SessionScript :=
  sweepIdle
    (.act
      (fun now w => match w.webSession? call with
        | some session => w.putWebSession { session with lastSeen := now }
        | none => w.addWebSession call defaultChannel now)
      fun _ w =>
        match w.webSession? call with
        | some session => next session.ref
        | none =>
          .act (fun _ w => w.register ⟨webId call, call, false⟩) fun _ _ =>
            .submit (.localJoin (webId call) call defaultChannel) (next w.newRef))

/-- The channel the hub has the session on, or else the one it was last asked for. -/
def channelOf (defaultChannel : Int32) (call : Text) (ref : ℕ) (h : Hub) (w : Shared) : Int32 :=
  ((h.sessions.find? (webId call)).map LocalSession.channel).getD
    (((w.webSessions.find? ref).map WebSession.channel).getD defaultChannel)

/-- `EnsureJoinedAsync`. -/
def ensureJoined (defaultChannel : Int32) (call : Text) (next : Int32 → SessionScript) :
    SessionScript :=
  getOrCreate defaultChannel call fun ref =>
    .snapshot fun h w => next (channelOf defaultChannel call ref h w)

/-- `CurrentChannelAsync`. -/
def currentChannel (defaultChannel : Int32) (call : Text) (next : Int32 → SessionScript) :
    SessionScript :=
  sweepIdle
    (.act
      (fun now w => match w.webSession? call with
        | some session => w.putWebSession { session with lastSeen := now }
        | none => w)
      fun _ w =>
        match w.webSession? call with
        | some session =>
          .snapshot fun h w => next (channelOf defaultChannel call session.ref h w)
        | none => next defaultChannel)

/-- `JoinChannelAsync`: the channel is kept whatever the hub makes of it. -/
def joinChannel (defaultChannel : Int32) (call : Text) (channel : Int32) (next : SessionScript) :
    SessionScript :=
  if !ChannelNumber.isValid channel then next
  else
    getOrCreate defaultChannel call fun ref =>
      .submit (.localSwitchChannel (webId call) channel)
        (.act
          (fun _ w => match w.webSessions.find? ref with
            | some session => w.putWebSession { session with channel := channel }
            | none => w)
          fun _ _ => next)

/-- A request that submits one event for the session. -/
def submit (defaultChannel : Int32) (call : Text) (event : ConversEvent) (next : SessionScript) :
    SessionScript :=
  getOrCreate defaultChannel call fun _ => .submit event next

/-- `SayAsync`. -/
def say (defaultChannel : Int32) (call text : Text) (next : SessionScript) : SessionScript :=
  if text.length = 0 then next
  else submit defaultChannel call (.localSay (webId call) text) next

/-- `PrivateMessageAsync`. -/
def privateMessage (defaultChannel : Int32) (call toUser text : Text) (next : SessionScript) :
    SessionScript :=
  if text.length = 0 ∨ toUser.length = 0 then next
  else submit defaultChannel call (.localPrivateMessage (webId call) toUser text) next

/-- `SetModeAsync`. -/
def setMode (defaultChannel : Int32) (call options : Text) (next : SessionScript) :
    SessionScript :=
  if (trim options).length = 0 then next
  else
    ensureJoined defaultChannel call fun channel =>
      .submit (.localSetMode (webId call) channel (trim options)) next

/-- `TryOperAsync`. -/
def tryOper (defaultChannel : Int32) (operatorSecret call secret : Text)
    (next : Bool → SessionScript) : SessionScript :=
  if operatorSecret.length = 0 ∨ secret ≠ operatorSecret then next false
  else submit defaultChannel call (.localSetOperator (webId call) (-1) true) (next true)

/-- `IsOperatorAsync`. -/
def isOperator (call : Text) (next : Bool → SessionScript) : SessionScript :=
  .act (fun _ w => w) fun _ w =>
    match w.webSession? call with
    | none => next false
    | some _ => .snapshot fun h _ =>
      next (((h.sessions.find? (webId call)).map LocalSession.isOperator).getD false)

end WebChatSessions

namespace WebChat

open WebChatSessions

/-- A request to the tile: a page, or a form. -/
inductive Request where
  /-- `/`, with the channel and the result of a login. -/
  | channelView (channel : Option Int32) (operResult : Option Text)
  | who
  | say (text : Text)
  /-- With the number in the form, if it is one. -/
  | join (channel : Option Int32)
  | topic (topic : Text)
  | msg (toUser text : Text)
  | mode (options : Text)
  | away (text : Text)
  | oper (secret : Text)
  deriving DecidableEq

/-- `Results.Redirect`. -/
def redirect (pathPrefix path : Text) : SessionScript := .write (pathPrefix ++ path) .done

/-- `ChannelViewAsync`: a page of the requested channel, if it is a channel, and else of the one the
user is on. -/
def channelViewAsync (o : Options) (pathPrefix call : Text) (requestedChannel : Option Int32)
    (operResult : Option Text) : SessionScript :=
  let view := fun channel => .snapshot fun h _ =>
    let ch := h.getChannel channel
    isOperator call fun isOperator => .report
      { options := o, pathPrefix := pathPrefix, call := call, channel := channel,
        present := ch.users, topic := ch.topic, topicBy := ch.topicSetBy, modes := ch.modes,
        isOperator := isOperator, operResult := operResult }
  match requestedChannel with
  | some req =>
    if ChannelNumber.isValid req then joinChannel o.defaultChannel call req (view req)
    else ensureJoined o.defaultChannel call view
  | none => ensureJoined o.defaultChannel call view

/-- `WhoAsync`. -/
def whoAsync (o : Options) (pathPrefix call : Text) : SessionScript :=
  WebChatSessions.currentChannel o.defaultChannel call fun channel => .snapshot fun h _ =>
    .write (whoPage o pathPrefix call channel (h.getChannel channel).users h.networkUsers) .done

/-- What `Map` has for a request. -/
def handle (o : Options) (operatorSecret pathPrefix call : Text) : Request → SessionScript
  | .channelView channel operResult => channelViewAsync o pathPrefix call channel operResult
  | .who => whoAsync o pathPrefix call
  | .say text =>
    WebChatSessions.say o.defaultChannel call (trim text) (redirect pathPrefix "/".toList)
  | .join channel =>
    match channel with
    | some ch =>
      if ChannelNumber.isValid ch then
        joinChannel o.defaultChannel call ch
          (redirect pathPrefix ("/?channel=".toList ++ decimal ch.toInt))
      else redirect pathPrefix "/".toList
    | none => redirect pathPrefix "/".toList
  | .topic topic =>
    submit o.defaultChannel call (.localSetTopic (webId call) (trim topic))
      (redirect pathPrefix "/".toList)
  | .msg toUser text =>
    privateMessage o.defaultChannel call (trim toUser) (trim text) (redirect pathPrefix "/".toList)
  | .mode options =>
    setMode o.defaultChannel call (trim options) (redirect pathPrefix "/".toList)
  | .away text =>
    submit o.defaultChannel call (.localSetAway (webId call) (trim text))
      (redirect pathPrefix "/".toList)
  | .oper secret =>
    tryOper o.defaultChannel operatorSecret call secret fun ok =>
      redirect pathPrefix (if ok then "/?oper=ok".toList else "/?oper=fail".toList)

end WebChat

end Convers
