import Convers.Core.Model

/-!
# What the hub is told and what it answers

`Convers.ConversEvent` is what the hub is driven with: the events of a local
session and those of the network. `Convers.ConversAction` is the fan-out it
answers: a delivery to a session, a command to the uplink, or an order to drop the
uplink. The two families a dispatcher tells apart are
`Convers.ConversAction.isDeliver` and `Convers.ConversAction.isSend`.
-/

namespace Convers

/-- An event the hub is advanced by. -/
inductive ConversEvent where
  | localJoin (sessionId callsign : Text) (channel : Int32)
  | localSwitchChannel (sessionId : Text) (channel : Int32)
  | localSay (sessionId text : Text)
  | localPrivateMessage (sessionId toUser text : Text)
  | localSetPersonal (sessionId personal : Text)
  | localSetAway (sessionId away : Text)
  | localSetTopic (sessionId topic : Text)
  | localInvite (sessionId toUser : Text) (channel : Int32)
  | localSetMode (sessionId : Text) (channel : Int32) (options : Text)
  | localSetOperator (sessionId : Text) (channel : Int32) (grant : Bool)
  | localLeave (sessionId reason : Text)
  | hostUser (user host : Text) (timestamp : DateTimeOffset) (fromChannel toChannel : Int32)
      (personal : Text) (observer : Bool)
  | hostChannelMessage (user : Text) (channel : Int32) (text : Text)
  | hostPrivateMessage (source target text : Text)
  | hostPersonal (user host text : Text)
  | hostAway (user host : Text) (timestamp : DateTimeOffset) (text : Text)
  | hostTopic (user host : Text) (timestamp : DateTimeOffset) (channel : Int32) (text : Text)
  | hostInvite (source user : Text) (channel : Int32)
  | hostMode (channel : Int32) (options : Text)
  | hostOper (user host : Text) (channel : Int32) (grant : Bool)
  | hostPing
  | hostPong (millisecondsOrSentinel : Int64)
  | hostLoop (host : Text)
  | hostUnknown (raw : Text)
  deriving DecidableEq

namespace ConversEvent

/-- The events a local session submits. -/
def isLocal : ConversEvent → Bool
  | localJoin .. | localSwitchChannel .. | localSay .. | localPrivateMessage .. => true
  | localSetPersonal .. | localSetAway .. | localSetTopic .. | localInvite .. => true
  | localSetMode .. | localSetOperator .. | localLeave .. => true
  | _ => false

/-- A join is under a valid callsign. -/
def isNamed : ConversEvent → Bool
  | localJoin _ callsign _ => Callsigns.isValidName callsign
  | _ => true

/-- The session of a local event. -/
def sessionId? : ConversEvent → Option Text
  | localJoin sessionId .. | localSwitchChannel sessionId _ | localSay sessionId _ => some sessionId
  | localPrivateMessage sessionId .. | localSetPersonal sessionId _ => some sessionId
  | localSetAway sessionId _ | localSetTopic sessionId _ | localInvite sessionId .. =>
    some sessionId
  | localSetMode sessionId .. | localSetOperator sessionId .. | localLeave sessionId _ =>
    some sessionId
  | _ => none

end ConversEvent

/-- An action the hub answers. -/
inductive ConversAction where
  | deliverChannelMessage (sessionId : Text) (channel : Int32) (fromUser text : Text)
  | deliverPrivateMessage (sessionId fromUser text : Text)
  | deliverAwayNotice (sessionId user away : Text)
  | deliverInvite (sessionId fromUser : Text) (channel : Int32)
  | deliverJoinNotice (sessionId : Text) (channel : Int32) (user : Text)
  | deliverLeaveNotice (sessionId : Text) (channel : Int32) (user reason : Text)
  | deliverTopic (sessionId : Text) (channel : Int32) (topic setBy : Text)
  | deliverModeChange (sessionId : Text) (channel : Int32) (modes : ChannelMode)
  | deliverModeNotice (sessionId : Text) (channel : Int32) (reason : Text)
  | sendUser (user host : Text) (timestamp : DateTimeOffset) (fromChannel toChannel : Int32)
      (personal : Text)
  | sendChannelMessage (user : Text) (channel : Int32) (text : Text)
  | sendPrivateMessage (source target text : Text)
  | sendPersonal (user host text : Text)
  | sendAway (user host : Text) (timestamp : DateTimeOffset) (text : Text)
  | sendTopic (user host : Text) (timestamp : DateTimeOffset) (channel : Int32) (text : Text)
  | sendInvite (source user : Text) (channel : Int32)
  | sendMode (channel : Int32) (options : Text)
  | sendPong (millisecondsOrSentinel : Int64)
  | dropUplink (reason : Text)
  deriving DecidableEq

namespace ConversAction

/-- The actions for a local session. -/
def isDeliver : ConversAction → Bool
  | deliverChannelMessage .. | deliverPrivateMessage .. | deliverAwayNotice .. => true
  | deliverInvite .. | deliverJoinNotice .. | deliverLeaveNotice .. => true
  | deliverTopic .. | deliverModeChange .. | deliverModeNotice .. => true
  | _ => false

/-- The actions for the uplink that become a command. -/
def isSend : ConversAction → Bool
  | sendUser .. | sendChannelMessage .. | sendPrivateMessage .. | sendPersonal .. => true
  | sendAway .. | sendTopic .. | sendInvite .. | sendMode .. | sendPong .. => true
  | _ => false

/-- The sends that are content of the network: all but the pong, which answers the
uplink. -/
def isContent : ConversAction → Bool
  | sendPong _ => false
  | a => a.isSend

theorem isContent_of_isDeliver {a : ConversAction} (h : a.isDeliver = true) :
    a.isContent = false := by
  cases a <;> first | rfl | cases h

theorem isSend_of_isDeliver {a : ConversAction} (h : a.isDeliver = true) : a.isSend = false := by
  cases a <;> first | rfl | cases h

theorem isDeliver_of_isContent {a : ConversAction} (h : a.isContent = true) :
    a.isDeliver = false := by
  cases a <;> first | rfl | cases h

end ConversAction

end Convers
