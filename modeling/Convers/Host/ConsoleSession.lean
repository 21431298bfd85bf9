import Convers.Host.Composition

/-!
# The session of a terminal beside the hub

`ConverseConsoleSession` has the hub for itself: it advances it and renders what the answer has for
its session, page by page, where the sessions of the host hand their events to the loop and are
delivered to. So the hub is here what is shared, and nothing is submitted.

Both kinds of session have the same intents and the same listing of the users.
-/

namespace Convers

/-- `ActionRenderer.Render`. -/
def ActionRenderer.render (actions : List ConversAction) (mySessionId : Text) : List Text :=
  actions.filterMap fun action =>
    if ActionRenderer.targetSession action = some mySessionId then ActionRenderer.renderOne action
    else none

/-- `ConverseConsoleConfig`. -/
structure ConverseConsoleConfig where
  nodeName : Text
  defaultChannel : Int32
  pageLength : Int32
  isClassic : Bool
  deriving DecidableEq

/-- The task of such a session. -/
abbrev ConsoleScript := Script DateTimeOffset Hub Unit Empty Text Empty

namespace ConverseConsoleSession

open RfUserSession (writeLine onChannel handleWho)

/-- `WriteLineAsync`, and what comes after. -/
def tell (line : Text) (next : ConsoleScript) : ConsoleScript := .write (writeLine line) next

/-- The hub is advanced. An exception ends the session. -/
def advance (event : ConversEvent) (next : List ConversAction → ConsoleScript) : ConsoleScript :=
  .act (fun now h => Hub.step h (now, event)) fun now h =>
    match (h.advance now event).fault with
    | some _ => .done
    | none => next (h.advance now event).actions

/-- The hub is read. -/
def look (next : Hub → ConsoleScript) : ConsoleScript := .act (fun _ h => h) fun _ h => next h

/-- The loop of `WritePagedAsync`, and what comes after. -/
def paged (pageLength : Int32) : ℕ → List Text → ConsoleScript → ConsoleScript
  | _, [], next => next
  | sincePrompt, line :: lines, next =>
    tell line
      (if pageLength > 0 ∧ (sincePrompt + 1 : ℤ) ≥ pageLength.toInt ∧ lines ≠ [] then
        tell "<A>bort, <CR> Continue..>".toList (.read fun response =>
          let response := toUpperInvariant (trim response)
          if response = ['A'] ∨ response = "ABORT".toList then tell "Output aborted".toList next
          else paged pageLength 0 lines next)
      else paged pageLength (sincePrompt + 1) lines next)

/-- `RenderAsync`, and what comes after. -/
def render (config : ConverseConsoleConfig) (sessionId : Text) (actions : List ConversAction)
    (next : ConsoleScript) : ConsoleScript :=
  paged config.pageLength 0 (ActionRenderer.render actions sessionId) next

/-- `AdvanceAndRenderAsync`, and what comes after. -/
def advanceAndRender (config : ConverseConsoleConfig) (sessionId : Text) (event : ConversEvent)
    (next : ConsoleScript) : ConsoleScript :=
  advance event fun actions => render config sessionId actions next

/-- The channel the hub has the session on, or else the default channel. -/
def channelOf (config : ConverseConsoleConfig) (sessionId : Text) (h : Hub) : Int32 :=
  ((h.sessions.find? sessionId).map LocalSession.channel).getD config.defaultChannel

/-- `GreetAndJoinAsync`. -/
def greetAndJoin (config : ConverseConsoleConfig) (sessionId call : Text) : ConsoleScript :=
  tell ('[' :: config.nodeName ++ " convers] Welcome ".toList ++ call ++ ['.'])
    (advance (.localJoin sessionId call config.defaultChannel) fun actions =>
      tell (onChannel config.defaultChannel)
        (render config sessionId actions
          (tell (if config.isClassic then "Classic mode. Type /help for commands.".toList
            else "Type 'help' for commands, or just type to chat.".toList) .done)))

/-- `HandleJoinAsync`. -/
def handleJoin (config : ConverseConsoleConfig) (sessionId : Text) :
    Option Int32 → ConsoleScript
  | none => look fun h => tell (onChannel (channelOf config sessionId h)) .done
  | some channel =>
    advanceAndRender config sessionId (.localSwitchChannel sessionId channel)
      (tell (onChannel channel) .done)

/-- `HandleTopicAsync`. -/
def handleTopic (config : ConverseConsoleConfig) (sessionId text : Text) : ConsoleScript :=
  if (trim text).length = 0 then
    look fun h =>
      let current := channelOf config sessionId h
      let channel := h.getChannel current
      tell (if channel.topic.length = 0 then
          "No topic set on channel ".toList ++ decimal current.toInt ++ ['.']
        else "Topic of channel ".toList ++ decimal current.toInt ++ ": ".toList ++ channel.topic)
        .done
  else advanceAndRender config sessionId (.localSetTopic sessionId text) .done

/-- `HandleInviteAsync`. -/
def handleInvite (config : ConverseConsoleConfig) (sessionId user : Text)
    (channel : Option Int32) : ConsoleScript :=
  look fun h =>
    let channel := channel.getD (channelOf config sessionId h)
    advanceAndRender config sessionId (.localInvite sessionId user channel)
      (tell ("Invited ".toList ++ user ++ " to channel ".toList ++ decimal channel.toInt ++ ['.'])
        .done)

/-- `SignOffLine`. -/
def signOffLine (config : ConverseConsoleConfig) (reason : Text) : Text :=
  "73 de ".toList ++ config.nodeName ++
    if (trim reason).length = 0 then [] else " (".toList ++ trim reason ++ [')']

/-- The session is left, and the terminal told so. -/
def signOff (config : ConverseConsoleConfig) (sessionId reason shown : Text) : ConsoleScript :=
  advance (.localLeave sessionId reason) fun _ => tell (signOffLine config shown) .done

/-- `HandleAsync`, and the two intents that end the session. Modes and the login of an operator are
not for this session. -/
def handle (config : ConverseConsoleConfig) (sessionId : Text) : ConsoleIntent → ConsoleScript
  | .empty | .mode .. | .oper _ => .done
  | .say text => advanceAndRender config sessionId (.localSay sessionId text) .done
  | .join channel => handleJoin config sessionId channel
  | .msg toUser text =>
    advanceAndRender config sessionId (.localPrivateMessage sessionId toUser text) .done
  | .topic text => handleTopic config sessionId text
  | .personal text =>
    advanceAndRender config sessionId (.localSetPersonal sessionId text)
      (tell (if (trim text).length = 0 then "Personal text cleared.".toList
        else "Personal text set: ".toList ++ trim text) .done)
  | .away text =>
    advanceAndRender config sessionId (.localSetAway sessionId text)
      (tell (if (trim text).length = 0 then "You are back.".toList
        else "You are away: ".toList ++ trim text) .done)
  | .who argument =>
    look fun h => paged config.pageLength 0
      (handleWho h sessionId config.defaultChannel argument) .done
  | .invite user channel => handleInvite config sessionId user channel
  | .help subject => paged config.pageLength 0 (ConsoleHelp.lines config.isClassic subject) .done
  | .unknown raw =>
    tell ((if config.isClassic then "Unknown command. Type /help for a list. (".toList
      else "Sorry, I didn't understand that. Type 'help' for commands. (".toList) ++
        trim raw ++ [')']) .done
  | .quit reason => signOff config sessionId reason reason
  | .leave reason =>
    signOff config sessionId (if reason.length = 0 then "leaving".toList else reason) reason

end ConverseConsoleSession

end Convers
