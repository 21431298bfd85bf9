import Convers.Host.HostLink
import Convers.Host.Sessions
import Convers.Lib.Run

/-!
# The host and its users

The owning loop, the chat log and the sessions of the users as one machine
(`Convers.Composition`). A label is one thing that can happen next: a radio link comes or sends a
line, a request arrives, a task takes its next step, or the loop takes an item off its queue or
hears of an event of another host. `Convers.Composition.next` answers the next state, and the texts
shown, each to a user: what is written to his terminals and the answers to his requests.

What the links of the host do is here only what it does to the loop: a label says which links there
are and which sends on the uplink succeed.
-/

namespace Convers

/-! ### What is delivered -/

namespace ActionRenderer

/-- `TargetSession`. -/
def targetSession : ConversAction → Option Text
  | .deliverChannelMessage sessionId .. | .deliverPrivateMessage sessionId .. => some sessionId
  | .deliverAwayNotice sessionId .. | .deliverInvite sessionId .. => some sessionId
  | .deliverJoinNotice sessionId .. | .deliverLeaveNotice sessionId .. => some sessionId
  | .deliverTopic sessionId .. | .deliverModeChange sessionId .. => some sessionId
  | .deliverModeNotice sessionId .. => some sessionId
  | _ => none

/-- `RenderOne`, for the session an action is for. -/
def renderOne : ConversAction → Option Text
  | .deliverChannelMessage _ _ fromUser text => some ('<' :: fromUser ++ ">: ".toList ++ text)
  | .deliverPrivateMessage _ fromUser text =>
    some ("<*".toList ++ fromUser ++ "*>: ".toList ++ text)
  | .deliverAwayNotice _ user away =>
    some ("*** ".toList ++ user ++ " is away: ".toList ++ away)
  | .deliverInvite _ fromUser channel =>
    some ("*** ".toList ++ fromUser ++ " invites you to channel ".toList ++ decimal channel.toInt)
  | .deliverJoinNotice _ channel user =>
    some ("*** ".toList ++ user ++ " joined channel ".toList ++ decimal channel.toInt)
  | .deliverLeaveNotice _ channel user reason =>
    some ("*** ".toList ++ user ++ " left channel ".toList ++ decimal channel.toInt ++
      if reason.length = 0 then [] else " (".toList ++ reason ++ [')'])
  | .deliverTopic _ channel topic setBy =>
    some ("*** Topic of channel ".toList ++ decimal channel.toInt ++
      if topic.length = 0 then " cleared".toList
      else ": ".toList ++ topic ++
        if setBy.length = 0 then [] else " (set by ".toList ++ setBy ++ [')'])
  | .deliverModeChange _ channel modes =>
    some ("*** Channel ".toList ++ decimal channel.toInt ++ " modes: ".toList ++
      ChannelModes.toWire modes)
  | .deliverModeNotice _ _ reason => some ("*** ".toList ++ reason)
  | _ => none

end ActionRenderer

/-- `LocalSessionRegistry.Deliver`: what is shown, and to whom. -/
def Shared.deliver (w : Shared) (action : ConversAction) : List (Text × Text) :=
  match (ActionRenderer.targetSession action).bind w.sinks.find?,
    ActionRenderer.renderOne action with
  | some sink, some line =>
    if sink.isTerminal then [(sink.call, RfUserSession.writeLine line)] else []
  | _, _ => []

/-! ### The machine -/

/-- A radio link, or a request. -/
structure SessionTask where
  id : Text
  call : Text
  /-- Of a radio link. -/
  config : Option RfSessionConfig
  script : SessionScript
  /-- A snapshot was asked for and is still to come. -/
  waiting : Bool

/-- An item on the queue of the loop. -/
inductive LoopWork where
  | event (event : ConversEvent)
  /-- The snapshot a task asked for. -/
  | snapshot (taskId : Text)
  deriving DecidableEq

/-- The host and its users. -/
structure Composition where
  options : WebChat.Options
  operatorSecret : Text
  hub : Hub
  log : ChatLog
  shared : Shared
  tasks : Table SessionTask.id
  /-- `_localEvents`. -/
  queue : List LoopWork

namespace Composition

/-- What can happen next. -/
inductive Label where
  /-- A radio link comes. -/
  | connect (id call : Text) (config : RfSessionConfig)
  /-- A radio link sends a line. -/
  | readLine (id : Text) (intent : ConsoleIntent)
  /-- A radio link answers a prompt. -/
  | respond (id response : Text)
  /-- A radio link is lost. -/
  | close (id : Text)
  /-- A request of the web arrives. -/
  | request (id call pathPrefix : Text) (request : WebChat.Request)
  /-- A task takes its next step. -/
  | proceed (now : DateTimeOffset) (id : Text)
  /-- The loop takes an item off its queue. -/
  | drain (links : HostLink.Links) (succeeds : ℕ → Bool) (now : DateTimeOffset)
  /-- The loop hears of an event of another host. -/
  | inbound (links : HostLink.Links) (exceptPeerId : Option Text) (now : DateTimeOffset)
      (event : ConversEvent)

variable (n : Composition)

/-- A task goes over to another state. -/
def putTask (task : SessionTask) : Composition := { n with tasks := n.tasks.put task }

/-- A radio link that is open, if there is one of that id. -/
def link (id : Text) : Option (SessionTask × RfSessionConfig) :=
  (n.tasks.find? id).bind fun task =>
    if (n.shared.sinks.find? id).isSome then task.config.map (task, ·) else none

/-- Whether a request can have that id. -/
def isFree (id : Text) : Bool :=
  (n.tasks.find? id).all fun task => task.config.isNone && task.script.isDone

/-- The rows a page shows. -/
def scrollback (view : WebChat.ChannelView) : List ChatLogRow :=
  n.log.queryChatLog (some view.channel) none none (some view.options.scrollbackRows)

/-- The loop has advanced the hub: the writer sees its calls, and the deliveries are made. -/
def carryOut (now : DateTimeOffset) (hub : Hub) (effects : List HostLink.Effect) :
    Composition × List (Text × Text) :=
  ({ n with hub := hub, log := ChatLogWriter.record now n.log effects },
    (HostLink.delivered effects).flatMap n.shared.deliver)

/-- A task takes its next step. -/
def proceedTask (now : DateTimeOffset) (task : SessionTask) : Composition × List (Text × Text) :=
  let turn := task.script.turn now n.shared
  ({ n.putTask { task with script := turn.next, waiting := turn.asks } with
      shared := turn.shared
      queue := n.queue ++ turn.event.toList.map .event ++
        if turn.asks then [.snapshot task.id] else [] },
    turn.written.toList.map (task.call, ·) ++
      turn.reported.toList.map fun view =>
        (task.call, WebChat.channelPage view (n.scrollback view)))

/-- The loop takes an item off its queue. -/
def drainQueue (links : HostLink.Links) (succeeds : ℕ → Bool) (now : DateTimeOffset) :
    Composition × List (Text × Text) :=
  match n.queue with
  | [] => (n, [])
  | .event event :: queue =>
    let (hub, done) :=
      HostLink.drainLocalEvent links HostLink.isLoggableLocal succeeds now n.hub event
    { n with queue := queue }.carryOut now hub done.effects
  | .snapshot taskId :: queue =>
    let n := { n with queue := queue }
    match n.tasks.find? taskId with
    | some task =>
      if task.waiting then
        (n.putTask { task with script := task.script.resume n.hub n.shared, waiting := false }, [])
      else (n, [])
    | none => (n, [])

/-- One step: the next state, and what is shown to whom. A label that cannot happen changes
nothing. -/
def next : Label → Composition × List (Text × Text)
  | .connect id call config =>
    let call := Callsigns.normalize call
    match n.tasks.find? id with
    | some _ => (n, [])
    | none =>
      ({ n.putTask ⟨id, call, some config, RfUserSession.greetAndJoin config id call, false⟩ with
        shared := n.shared.register ⟨id, call, true⟩ }, [])
  | .readLine id intent =>
    match n.link id with
    | some (task, config) =>
      if task.script.isDone then
        (n.putTask { task with script := RfUserSession.handle config id intent }, [])
      else (n, [])
    | none => (n, [])
  | .respond id response =>
    match n.link id with
    | some (task, _) => (n.putTask { task with script := task.script.answer response }, [])
    | none => (n, [])
  | .close id =>
    match n.link id with
    | some (task, _) =>
      -- it shows when the session next reads or writes
      if task.script.isDone || task.script.reads || task.script.writes then
        (n.putTask { task with script := RfUserSession.drop id }, [])
      else (n, [])
    | none => (n, [])
  | .request id call pathPrefix request =>
    let call := Callsigns.normalize call
    if n.isFree id then
      (n.putTask ⟨id, call, none,
        WebChat.handle n.options n.operatorSecret pathPrefix call request, false⟩, [])
    else (n, [])
  | .proceed now id =>
    match n.tasks.find? id with
    | some task => if task.waiting then (n, []) else n.proceedTask now task
    | none => (n, [])
  | .drain links succeeds now => n.drainQueue links succeeds now
  | .inbound links exceptPeerId now event =>
    let (hub, done) := HostLink.applyEvents links exceptPeerId now n.hub [event]
    n.carryOut now hub done.effects

/-- The next state. -/
def step (label : Label) : Composition := (n.next label).1

/-- What a step shows a user. -/
def shownTo (viewer : Text) (label : Label) : List Text :=
  ((n.next label).2.filter (·.1 = viewer)).map Prod.snd

/-- The host as it starts, with the log there is. -/
def new (options : WebChat.Options) (operatorSecret : Text) (hub : Hub) (log : ChatLog) :
    Composition :=
  { options := options, operatorSecret := operatorSecret, hub := hub, log := log,
    shared := Shared.empty, tasks := Table.empty, queue := [] }

end Composition

end Convers
