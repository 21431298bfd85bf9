import Convers.Host.HostLink

/-!
# The node

The whole node as one machine: the hub and the uplink on the owning loop, the queue
of work for that loop, and the sessions of the downstream peers, each a task of its
own. A `Convers.Node.Label` is one thing that can happen next, so a run of labels is
any interleaving of the tasks; `Convers.Node.step` answers the next state and the
calls made.

A session hands the loop its work through the queue: the snapshot for its
announcement, and the commands its peer sends. Between the snapshot and the end of
the announcement it reads nothing.
-/

namespace Convers

/-- What a peer session is at. -/
inductive SessionPhase where
  /-- It waits for a line of the peer. -/
  | receiving
  /-- It waits for the snapshot of the hub. -/
  | awaitingSnapshot
  /-- It has commands left to announce, and then its early content to submit. -/
  | announcing (commands : List HostCommand)
  deriving DecidableEq

/-- `DownstreamPeerSession`. -/
structure PeerSession where
  /-- `PeerId`. -/
  id : Text
  engine : HostLinkEngine
  /-- The lines on the transport that are not read yet. -/
  inbox : List Text
  /-- Whether the session is registered with the host link. -/
  registered : Bool
  /-- `earlyContent`: the lines read before the handshake was complete. -/
  earlyContent : List Text
  phase : SessionPhase
  deriving DecidableEq

/-- `HubWork`: one item of the queue of the owning loop. -/
inductive HubWork where
  /-- A local event. -/
  | event (event : ConversEvent)
  /-- The snapshot a peer session asks for. -/
  | snapshot (peerId : Text)
  /-- A command from a peer. -/
  | peer (command : HostCommand) (originPeerId : Text)
  deriving DecidableEq

/-- The node. -/
structure Node where
  options : HostLinkOptions
  hub : Hub
  /-- The engine of the connection to the parent, while there is one. -/
  uplink : Option HostLinkEngine
  /-- The sessions of the downstream peers. -/
  sessions : Table PeerSession.id
  /-- `_nextPeer`. -/
  nextPeer : ℕ
  /-- `_localEvents`. -/
  queue : List HubWork
  deriving DecidableEq

namespace Node

/-- What can happen next. -/
inductive Label where
  /-- `SubmitLocalEventAsync`. -/
  | submit (event : ConversEvent)
  /-- The loop takes an item off its queue. -/
  | drain (now : DateTimeOffset)
  /-- A connection to the parent begins. -/
  | connect (now : DateTimeOffset)
  /-- A line of the parent. -/
  | uplinkLine (now : DateTimeOffset) (line : Text)
  /-- The timer of the uplink. -/
  | uplinkTick (now : DateTimeOffset)
  /-- The connection to the parent is lost. -/
  | uplinkLoss
  /-- The demux hands over an admitted connection with the lines it has. -/
  | accept (now : DateTimeOffset) (lines : List Text)
  /-- A line of a peer arrives on its transport. -/
  | arrive (peerId line : Text)
  /-- A session takes a line off its transport. -/
  | read (now : DateTimeOffset) (peerId : Text)
  /-- A session goes on with its announcement. -/
  | proceed (peerId : Text)
  /-- The timer of a session. -/
  | peerTick (now : DateTimeOffset) (peerId : Text)
  /-- The connection to a peer is lost. -/
  | peerLoss (peerId : Text)
  deriving DecidableEq

variable (n : Node)

/-- The links of the node: the uplink, and the sessions that are registered. -/
def links : HostLink.Links where
  uplink := n.uplink.isSome
  peers := (n.sessions.records.filter PeerSession.registered).map PeerSession.id
  nodup := n.sessions.nodup.sublist (List.filter_sublist.map PeerSession.id)

/-- The commands of `AnnouncePresenceAsync`: every user, then the topic and the modes of
every channel. -/
def presence (h : Hub) : List HostCommand :=
  h.networkUsers.flatMap HostLink.announceUser ++
    h.listChannels.flatMap fun channel =>
      let state := h.channelState channel
      (if state.topic.length ≠ 0 then
        [.hostTopic (if state.topicSetBy.length = 0 then "conversd".toList else state.topicSetBy)
          h.hostName ((state.topicSetAt.map HostBridge.toUnix).getD 0) channel state.topic]
      else []) ++
        if state.modes ≠ ∅ then [.hostMode channel (ChannelModes.toWire state.modes)] else []

/-- A session goes over to another state. -/
def putSession (session : PeerSession) : Node := { n with sessions := n.sessions.put session }

/-- A session ends: it is no longer registered. -/
def endSession (peerId : Text) : Node := { n with sessions := n.sessions.remove peerId }

/-- An item is put on the queue. -/
def enqueueWork (work : HubWork) : Node := { n with queue := n.queue ++ [work] }

/-- `SubmitContentAsync`: nothing on a line without content of the network, which is what
the link-local verbs are not. -/
def submitContent (peerId line : Text) : Node :=
  match PeerRelay.contentOf line with
  | some command => n.enqueueWork (.peer command peerId)
  | none => n

/-- `DownstreamPeerSession.ApplyStep`, but for the drop: the commands for the peer, and
the pong to its ping. -/
def applyPeerStep (peerId : Text) (step : EngineStep) : List HostLink.Effect :=
  let pongs := (step.hubEvents.filter (· = ConversEvent.hostPing)).map fun _ =>
    HostCommand.hostPong Hub.pongSentinelNoMeasurement
  (step.outboundCommands ++ pongs).map (.enqueue peerId ·)

/-- One turn of `DrainLocalEventsAsync`. -/
def drain (now : DateTimeOffset) : Node × List HostLink.Effect :=
  match n.queue with
  | [] => (n, [])
  | .event event :: queue =>
    let (hub, done) := HostLink.drainLocalEvent n.links HostLink.isLoggableLocal
      HostLink.allSucceed now n.hub event
    ({ n with hub := hub, queue := queue }, done.effects)
  | .snapshot peerId :: queue =>
    let n := { n with queue := queue }
    match n.sessions.find? peerId with
    | some session =>
      if session.phase = .awaitingSnapshot then
        (n.putSession { session with phase := .announcing (presence n.hub) }, [])
      else (n, [])
    | none => (n, [])
  | .peer command originPeerId :: queue =>
    let (hub, effects) := HostLink.applyPeerInbound n.links now n.hub command originPeerId
    ({ n with hub := hub, queue := queue }, effects)

/-- A session reads a line. -/
def readLine (now : DateTimeOffset) (session : PeerSession) (line : Text) :
    Node × List HostLink.Effect :=
  match session.engine.onLineReceived now line with
  -- the exception ends the session
  | .error _ => (n.endSession session.id, [])
  | .ok (engine, step) =>
    let effects := applyPeerStep session.id step
    let session := { session with engine := engine }
    match step.dropReason with
    | some _ => (n.endSession session.id, effects)
    | none =>
      if step.handshakeCompleted then
        ((n.putSession { session with registered := true, phase := .awaitingSnapshot }).enqueueWork
          (.snapshot session.id), effects)
      else if session.registered then
        ((n.putSession session).submitContent session.id line, effects)
      else
        (n.putSession { session with earlyContent := session.earlyContent ++ [line] }, effects)

/-- A session goes on: one command announced, or one early line submitted. -/
def proceedSession (session : PeerSession) : Node × List HostLink.Effect :=
  match session.phase with
  | .announcing (command :: commands) =>
    (n.putSession { session with phase := .announcing commands }, [.enqueue session.id command])
  | .announcing [] =>
    match session.earlyContent with
    | line :: lines =>
      ((n.putSession { session with earlyContent := lines }).submitContent session.id line, [])
    | [] => (n.putSession { session with phase := .receiving }, [])
  | _ => (n, [])

/-- **What a session does with a line**: the exception or the drop ends it, the completion of the
handshake registers it, and else it submits the line or keeps it. The cases are those in which the
source returns. -/
theorem readLine_cases (now : DateTimeOffset) (session : PeerSession) (line : Text) :
    (∃ fault, session.engine.onLineReceived now line = .error fault ∧
      n.readLine now session line = (n.endSession session.id, [])) ∨
    ∃ engine step, session.engine.onLineReceived now line = .ok (engine, step) ∧
      (n.readLine now session line).2 = applyPeerStep session.id step ∧
      (step.dropReason.isSome = true ∧
          (n.readLine now session line).1 = n.endSession session.id ∨
        step.dropReason = none ∧ step.handshakeCompleted = true ∧
          (n.readLine now session line).1 =
            (n.putSession { session with
              engine := engine, registered := true, phase := .awaitingSnapshot }).enqueueWork
                (.snapshot session.id) ∨
        step.dropReason = none ∧ step.handshakeCompleted = false ∧ session.registered = true ∧
          (n.readLine now session line).1 =
            (n.putSession { session with engine := engine }).submitContent session.id line ∨
        step.dropReason = none ∧ step.handshakeCompleted = false ∧ session.registered = false ∧
          (n.readLine now session line).1 =
            n.putSession { session with
              engine := engine, earlyContent := session.earlyContent ++ [line] }) := by
  rw [readLine]
  rcases session.engine.onLineReceived now line with fault | ⟨engine, step⟩
  · exact Or.inl ⟨fault, rfl, rfl⟩
  · refine Or.inr ⟨engine, step, rfl, ?_⟩
    dsimp only
    rcases hdrop : step.dropReason with _ | reason
    · dsimp only
      by_cases hcompleted : step.handshakeCompleted = true
      · rw [if_pos hcompleted]
        exact ⟨rfl, Or.inr (Or.inl ⟨rfl, hcompleted, rfl⟩)⟩
      · rw [if_neg hcompleted]
        have hnot := Bool.eq_false_iff.mpr hcompleted
        by_cases hregistered : session.registered = true
        · rw [if_pos hregistered]
          exact ⟨rfl, Or.inr (Or.inr (Or.inl ⟨rfl, hnot, hregistered, rfl⟩))⟩
        · rw [if_neg hregistered]
          exact ⟨rfl, Or.inr (Or.inr (Or.inr
            ⟨rfl, hnot, Bool.eq_false_iff.mpr hregistered, rfl⟩))⟩
    · exact ⟨rfl, Or.inl ⟨rfl, rfl⟩⟩

/-- **How a session goes on**: it announces a command, submits an early line, or begins to read. The
announcement comes before the early lines, and both before the reading. -/
theorem proceedSession_cases (session : PeerSession) :
    (∃ command commands, session.phase = .announcing (command :: commands) ∧
      n.proceedSession session = (n.putSession { session with phase := .announcing commands },
        [.enqueue session.id command])) ∨
    (∃ line lines, session.phase = .announcing [] ∧ session.earlyContent = line :: lines ∧
      n.proceedSession session =
        ((n.putSession { session with earlyContent := lines }).submitContent session.id line,
          [])) ∨
    (session.phase = .announcing [] ∧ session.earlyContent = [] ∧
      n.proceedSession session = (n.putSession { session with phase := .receiving }, [])) ∨
    n.proceedSession session = (n, []) := by
  unfold proceedSession
  split
  · rename_i command commands hphase
    exact Or.inl ⟨command, commands, hphase, rfl⟩
  · rename_i hphase
    split
    · rename_i line lines hearly
      exact Or.inr (Or.inl ⟨line, lines, hphase, hearly, rfl⟩)
    · rename_i hearly
      exact Or.inr (Or.inr (Or.inl ⟨hphase, hearly, rfl⟩))
  · exact Or.inr (Or.inr (Or.inr rfl))

/-- `NextPeerId`. -/
def peerIdOf (k : ℕ) : Text := "peer-".toList ++ decimal k

/-- One step of the node: the next state and the calls made. A label that cannot happen
changes nothing. -/
def next : Label → Node × List HostLink.Effect
  | .submit event => (n.enqueueWork (.event event), [])
  | .drain now => n.drain now
  | .connect now =>
    match n.uplink with
    | some _ => (n, [])
    | none =>
      let (engine, step) := (HostLinkEngine.new n.options false).onConnected now
      let n := { n with uplink := some engine }
      let (hub, done) := HostLink.applyStep n.links now n.hub step
      ({ n with hub := hub }, done.effects)
  | .uplinkLine now line =>
    match n.uplink with
    | some engine =>
      let (uplink, hub, effects) := HostLink.receiveLine n.links now engine n.hub line
      ({ n with uplink := uplink, hub := hub }, effects)
    | none => (n, [])
  | .uplinkTick now =>
    match n.uplink with
    | some engine =>
      let (engine, step) := engine.onTick now
      let (hub, done) := HostLink.applyStep n.links now n.hub step
      let uplink := if step.dropReason.isSome then none else some engine
      ({ n with uplink := uplink, hub := hub }, done.effects)
    | none => (n, [])
  | .uplinkLoss => ({ n with uplink := none }, [])
  | .accept now lines =>
    let (engine, step) := (HostLinkEngine.new n.options true).onAccepted now
    let id := peerIdOf (n.nextPeer + 1)
    let session : PeerSession :=
      { id := id, engine := engine, inbox := lines, registered := false, earlyContent := [],
        phase := .receiving }
    ({ n.putSession session with nextPeer := n.nextPeer + 1 }, applyPeerStep id step)
  | .arrive peerId line =>
    match n.sessions.find? peerId with
    | some session => (n.putSession { session with inbox := session.inbox ++ [line] }, [])
    | none => (n, [])
  | .read now peerId =>
    match n.sessions.find? peerId with
    | some session =>
      match session.phase, session.inbox with
      | .receiving, line :: lines => n.readLine now { session with inbox := lines } line
      | _, _ => (n, [])
    | none => (n, [])
  | .proceed peerId =>
    match n.sessions.find? peerId with
    | some session => n.proceedSession session
    | none => (n, [])
  | .peerTick now peerId =>
    match n.sessions.find? peerId with
    | some session =>
      if session.phase = .receiving then
        let (engine, step) := session.engine.onTick now
        let effects := applyPeerStep peerId step
        if step.dropReason.isSome then (n.endSession peerId, effects)
        else (n.putSession { session with engine := engine }, effects)
      else (n, [])
    | none => (n, [])
  | .peerLoss peerId =>
    match n.sessions.find? peerId with
    | some session => if session.phase = .receiving then (n.endSession peerId, []) else (n, [])
    | none => (n, [])

/-- The next state. -/
def step (label : Label) : Node := (n.next label).1

/-- The calls made on the way. -/
def effects (label : Label) : List HostLink.Effect := (n.next label).2

/-- **What one step does**: the next state and the calls made. -/
inductive Change (n : Node) : Label → Node → List HostLink.Effect → Prop
  /-- Nothing. -/
  | idle (label : Label) : Change n label n []
  /-- Somebody here hands the loop an event. -/
  | submitted (event : ConversEvent) :
      Change n (.submit event) (n.enqueueWork (.event event)) []
  /-- The loop takes an event off its queue. -/
  | drained {event : ConversEvent} {queue : List HubWork} (now : DateTimeOffset)
      (hqueue : n.queue = .event event :: queue) :
      Change n (.drain now)
        { n with
          hub := (HostLink.drainLocalEvent n.links HostLink.isLoggableLocal HostLink.allSucceed now
            n.hub event).1
          queue := queue }
        (HostLink.drainLocalEvent n.links HostLink.isLoggableLocal HostLink.allSucceed now n.hub
          event).2.effects
  /-- It takes a command of a peer off it. -/
  | passed {command : HostCommand} {originPeerId : Text} {queue : List HubWork}
      (now : DateTimeOffset) (hqueue : n.queue = .peer command originPeerId :: queue) :
      Change n (.drain now)
        { n with
          hub := (HostLink.applyPeerInbound n.links now n.hub command originPeerId).1
          queue := queue }
        (HostLink.applyPeerInbound n.links now n.hub command originPeerId).2
  /-- It takes the snapshot for a session that waits for it. -/
  | answered {peerId : Text} {queue : List HubWork} {session : PeerSession} (now : DateTimeOffset)
      (hqueue : n.queue = .snapshot peerId :: queue)
      (hfind : n.sessions.find? peerId = some session)
      (hphase : session.phase = .awaitingSnapshot) :
      Change n (.drain now)
        (({ n with queue := queue } : Node).putSession
          { session with phase := .announcing (presence n.hub) }) []
  /-- Nobody waits for the snapshot any more. -/
  | skipped {peerId : Text} {queue : List HubWork} (now : DateTimeOffset)
      (hqueue : n.queue = .snapshot peerId :: queue)
      (hnot : ∀ session, n.sessions.find? peerId = some session →
        session.phase ≠ .awaitingSnapshot) :
      Change n (.drain now) { n with queue := queue } []
  /-- The connection to the parent begins. -/
  | connected {engine : HostLinkEngine} {step : EngineStep} (now : DateTimeOffset)
      (hup : n.uplink = none)
      (hengine : (HostLinkEngine.new n.options false).onConnected now = (engine, step)) :
      Change n (.connect now)
        { n with
          uplink := some engine
          hub := (HostLink.applyStep ({ n with uplink := some engine } : Node).links now n.hub
            step).1 }
        (HostLink.applyStep ({ n with uplink := some engine } : Node).links now n.hub
          step).2.effects
  /-- A line of the parent. -/
  | heard {engine : HostLinkEngine} (now : DateTimeOffset) (line : Text)
      (hup : n.uplink = some engine) :
      Change n (.uplinkLine now line)
        { n with
          uplink := (HostLink.receiveLine n.links now engine n.hub line).1
          hub := (HostLink.receiveLine n.links now engine n.hub line).2.1 }
        (HostLink.receiveLine n.links now engine n.hub line).2.2
  /-- The timer of the connection to the parent. -/
  | ticked {engine : HostLinkEngine} (now : DateTimeOffset) (hup : n.uplink = some engine) :
      Change n (.uplinkTick now)
        { n with
          uplink := if (engine.onTick now).2.dropReason.isSome then none
            else some (engine.onTick now).1
          hub := (HostLink.applyStep n.links now n.hub (engine.onTick now).2).1 }
        (HostLink.applyStep n.links now n.hub (engine.onTick now).2).2.effects
  /-- The connection to the parent is lost. -/
  | lost : Change n .uplinkLoss { n with uplink := none } []
  /-- A peer connects. -/
  | accepted {engine : HostLinkEngine} {step : EngineStep} (now : DateTimeOffset)
      (lines : List Text)
      (hengine : (HostLinkEngine.new n.options true).onAccepted now = (engine, step)) :
      Change n (.accept now lines)
        { n.putSession
            { id := peerIdOf (n.nextPeer + 1), engine := engine, inbox := lines,
              registered := false, earlyContent := [], phase := .receiving } with
          nextPeer := n.nextPeer + 1 }
        (applyPeerStep (peerIdOf (n.nextPeer + 1)) step)
  /-- A line of a peer arrives. -/
  | arrived {session : PeerSession} (line : Text)
      (hfind : n.sessions.find? session.id = some session) :
      Change n (.arrive session.id line)
        (n.putSession { session with inbox := session.inbox ++ [line] }) []
  /-- An exception on a line ends the session. -/
  | threw {session : PeerSession} {line : Text} {lines : List Text} {fault : Fault}
      (now : DateTimeOffset) (hfind : n.sessions.find? session.id = some session)
      (hphase : session.phase = .receiving) (hinbox : session.inbox = line :: lines)
      (hread : session.engine.onLineReceived now line = .error fault) :
      Change n (.read now session.id) (n.endSession session.id) []
  /-- A line drops the session. -/
  | dropped {session : PeerSession} {line : Text} {lines : List Text} {engine : HostLinkEngine}
      {step : EngineStep} (now : DateTimeOffset)
      (hfind : n.sessions.find? session.id = some session)
      (hphase : session.phase = .receiving) (hinbox : session.inbox = line :: lines)
      (hread : session.engine.onLineReceived now line = .ok (engine, step))
      (hdrop : step.dropReason.isSome = true) :
      Change n (.read now session.id) (n.endSession session.id) (applyPeerStep session.id step)
  /-- A line completes the handshake: the session is registered, and asks for the snapshot. -/
  | registered {session : PeerSession} {line : Text} {lines : List Text}
      {engine : HostLinkEngine} {step : EngineStep} (now : DateTimeOffset)
      (hfind : n.sessions.find? session.id = some session)
      (hphase : session.phase = .receiving) (hinbox : session.inbox = line :: lines)
      (hread : session.engine.onLineReceived now line = .ok (engine, step))
      (hdrop : step.dropReason = none) (hcompleted : step.handshakeCompleted = true) :
      Change n (.read now session.id)
        ((n.putSession { session with
          inbox := lines, engine := engine, registered := true,
          phase := .awaitingSnapshot }).enqueueWork (.snapshot session.id))
        (applyPeerStep session.id step)
  /-- A line of a registered session is submitted. -/
  | relayed {session : PeerSession} {line : Text} {lines : List Text}
      {engine : HostLinkEngine} {step : EngineStep} (now : DateTimeOffset)
      (hfind : n.sessions.find? session.id = some session)
      (hphase : session.phase = .receiving) (hinbox : session.inbox = line :: lines)
      (hread : session.engine.onLineReceived now line = .ok (engine, step))
      (hdrop : step.dropReason = none) (hcompleted : step.handshakeCompleted = false)
      (hregistered : session.registered = true) :
      Change n (.read now session.id)
        ((n.putSession { session with inbox := lines, engine := engine }).submitContent session.id
          line)
        (applyPeerStep session.id step)
  /-- A line before the handshake is complete is kept. -/
  | kept {session : PeerSession} {line : Text} {lines : List Text} {engine : HostLinkEngine}
      {step : EngineStep} (now : DateTimeOffset)
      (hfind : n.sessions.find? session.id = some session)
      (hphase : session.phase = .receiving) (hinbox : session.inbox = line :: lines)
      (hread : session.engine.onLineReceived now line = .ok (engine, step))
      (hdrop : step.dropReason = none) (hcompleted : step.handshakeCompleted = false)
      (hregistered : session.registered = false) :
      Change n (.read now session.id)
        (n.putSession { session with
          inbox := lines, engine := engine, earlyContent := session.earlyContent ++ [line] })
        (applyPeerStep session.id step)
  /-- A session announces a command. -/
  | announced {session : PeerSession} {command : HostCommand} {commands : List HostCommand}
      (hfind : n.sessions.find? session.id = some session)
      (hphase : session.phase = .announcing (command :: commands)) :
      Change n (.proceed session.id)
        (n.putSession { session with phase := .announcing commands })
        [.enqueue session.id command]
  /-- It submits a line that it kept. -/
  | resubmitted {session : PeerSession} {line : Text} {lines : List Text}
      (hfind : n.sessions.find? session.id = some session)
      (hphase : session.phase = .announcing []) (hearly : session.earlyContent = line :: lines) :
      Change n (.proceed session.id)
        ((n.putSession { session with earlyContent := lines }).submitContent session.id line) []
  /-- It begins to read. -/
  | began {session : PeerSession} (hfind : n.sessions.find? session.id = some session)
      (hphase : session.phase = .announcing []) (hearly : session.earlyContent = []) :
      Change n (.proceed session.id) (n.putSession { session with phase := .receiving }) []
  /-- The timer of a session drops it. -/
  | peerDropped {session : PeerSession} (now : DateTimeOffset)
      (hfind : n.sessions.find? session.id = some session) (hphase : session.phase = .receiving)
      (hdrop : (session.engine.onTick now).2.dropReason.isSome = true) :
      Change n (.peerTick now session.id) (n.endSession session.id)
        (applyPeerStep session.id (session.engine.onTick now).2)
  /-- The timer of a session pings, or does nothing. -/
  | peerTicked {session : PeerSession} (now : DateTimeOffset)
      (hfind : n.sessions.find? session.id = some session) (hphase : session.phase = .receiving)
      (hdrop : (session.engine.onTick now).2.dropReason = none) :
      Change n (.peerTick now session.id)
        (n.putSession { session with engine := (session.engine.onTick now).1 })
        (applyPeerStep session.id (session.engine.onTick now).2)
  /-- The connection to a peer is lost. -/
  | peerLost {session : PeerSession} (hfind : n.sessions.find? session.id = some session)
      (hphase : session.phase = .receiving) :
      Change n (.peerLoss session.id) (n.endSession session.id) []

/-- What a session does with the first line of its inbox. -/
theorem change_readLine {session : PeerSession} {line : Text} {lines : List Text}
    (now : DateTimeOffset) (hfind : n.sessions.find? session.id = some session)
    (hphase : session.phase = .receiving) (hinbox : session.inbox = line :: lines) :
    Change n (.read now session.id)
      (n.readLine now { session with inbox := lines } line).1
      (n.readLine now { session with inbox := lines } line).2 := by
  rw [readLine]
  rcases hread : session.engine.onLineReceived now line with fault | ⟨engine, step⟩
  · exact .threw now hfind hphase hinbox hread
  · dsimp only
    rcases hdrop : step.dropReason with _ | reason
    · dsimp only
      rcases hcompleted : step.handshakeCompleted with _ | _
      · rw [if_neg Bool.false_ne_true]
        rcases hregistered : session.registered with _ | _
        · rw [if_neg Bool.false_ne_true]
          have hkept := Change.kept now hfind hphase hinbox hread hdrop hcompleted hregistered
          rwa [hregistered] at hkept
        · rw [if_pos rfl]
          have hrelayed := Change.relayed now hfind hphase hinbox hread hdrop hcompleted
            hregistered
          rwa [hregistered] at hrelayed
      · rw [if_pos rfl]
        exact .registered now hfind hphase hinbox hread hdrop hcompleted
    · exact .dropped now hfind hphase hinbox hread (hdrop ▸ rfl)

/-- How a session goes on. -/
theorem change_proceedSession {session : PeerSession}
    (hfind : n.sessions.find? session.id = some session) :
    Change n (.proceed session.id) (n.proceedSession session).1 (n.proceedSession session).2 := by
  rw [proceedSession]
  split
  · rename_i command commands hphase
    exact .announced hfind hphase
  · rename_i hphase
    split
    · rename_i line lines hearly
      exact .resubmitted hfind hphase hearly
    · rename_i hearly
      exact .began hfind hphase hearly
  · exact .idle _

/-- What the loop does with the first item of its queue. -/
theorem change_drain (now : DateTimeOffset) :
    Change n (.drain now) (n.drain now).1 (n.drain now).2 := by
  rw [drain]
  split
  · exact .idle _
  · rename_i event queue hqueue
    exact .drained now hqueue
  · rename_i peerId queue hqueue
    dsimp only
    split
    · rename_i session hfind
      split
      · rename_i hphase
        exact .answered now hqueue hfind hphase
      · rename_i hphase
        refine .skipped now hqueue fun other hother => ?_
        obtain rfl := Option.some.inj (hfind.symm.trans hother)
        exact hphase
    · rename_i hfind
      refine .skipped now hqueue fun other hother => ?_
      cases hfind.symm.trans hother
  · rename_i command originPeerId queue hqueue
    exact .passed now hqueue

/-- **No step does anything else.** An invariant that looks at what a step did, and not at how, is
shown without unfolding the step. -/
theorem change_next (label : Label) : Change n label (n.next label).1 (n.next label).2 := by
  cases label with
  | submit event => exact .submitted event
  | drain now => exact n.change_drain now
  | connect now =>
    rw [next]
    split
    · exact .idle _
    · rename_i hup
      exact .connected now hup rfl
  | uplinkLine now line =>
    rw [next]
    split
    · rename_i engine hup
      exact .heard now line hup
    · exact .idle _
  | uplinkTick now =>
    rw [next]
    split
    · rename_i engine hup
      exact .ticked now hup
    · exact .idle _
  | uplinkLoss => exact .lost
  | accept now lines => exact .accepted now lines rfl
  | arrive peerId line =>
    rw [next]
    split
    · rename_i session hfind
      obtain rfl : session.id = peerId := Table.key_of_find? hfind
      exact .arrived line hfind
    · exact .idle _
  | read now peerId =>
    rw [next]
    split
    · rename_i session hfind
      obtain rfl : session.id = peerId := Table.key_of_find? hfind
      split
      · rename_i line lines hphase hinbox
        exact n.change_readLine now hfind hphase hinbox
      · exact .idle _
    · exact .idle _
  | proceed peerId =>
    rw [next]
    split
    · rename_i session hfind
      obtain rfl : session.id = peerId := Table.key_of_find? hfind
      exact n.change_proceedSession hfind
    · exact .idle _
  | peerTick now peerId =>
    rw [next]
    split
    · rename_i session hfind
      obtain rfl : session.id = peerId := Table.key_of_find? hfind
      split
      · rename_i hphase
        dsimp only
        rcases hdrop : (session.engine.onTick now).2.dropReason with _ | reason
        · exact .peerTicked now hfind hphase hdrop
        · exact .peerDropped now hfind hphase (hdrop ▸ rfl)
      · exact .idle _
    · exact .idle _
  | peerLoss peerId =>
    rw [next]
    split
    · rename_i session hfind
      obtain rfl : session.id = peerId := Table.key_of_find? hfind
      split
      · rename_i hphase
        exact .peerLost hfind hphase
      · exact .idle _
    · exact .idle _

/-- **The inversion of a step**: the state after it, the calls, and what it did. An invariant of a
node is so shown by cases on what a step did. -/
theorem exists_change (label : Label) :
    ∃ n' calls, n.next label = (n', calls) ∧ n.Change label n' calls :=
  ⟨_, _, rfl, n.change_next label⟩

/-- A node as it starts. -/
def new (options : HostLinkOptions) (hub : Hub) : Node where
  options := options
  hub := hub
  uplink := none
  sessions := Table.empty
  nextPeer := 0
  queue := []

end Node

end Convers
