import Convers.Core.ConversEvent
import Convers.Protocol.HostCommandCodec

/-!
# The bridge between the wire and the hub

`Convers.HostBridge.toEvent` turns a command off the wire into the event it drives
the hub with, and `Convers.HostBridge.toHostCommand` turns an action for the uplink
into a command. The wire has Unix seconds and the hub has moments, and only one of
the two conversions is total: a second outside the years 1 to 9999 has no moment,
and the framework throws (`Convers.HostBridge.toEvent_isOk_iff`).
-/

namespace Convers

namespace HostBridge

/-- `FromUnix`. -/
def fromUnix (seconds : Int64) : Except Fault DateTimeOffset :=
  DateTimeOffset.fromUnixTimeSeconds seconds.toInt

/-- `ToUnix`, floored at 0. -/
def toUnix (time : DateTimeOffset) : Int64 :=
  let s := time.toUnixTimeSeconds
  if s < 0 then 0 else Int64.ofInt s

/-- `ToEvent`: no event for the handshake. -/
def toEvent : HostCommand → Except Fault (Option ConversEvent)
  | .hostHandshake .. => .ok none
  | .hostUser user host timestamp fromChannel toChannel text isObserver => do
    let at' ← fromUnix timestamp
    .ok (some (.hostUser user host at' fromChannel toChannel text isObserver))
  | .hostChannelMessage user channel text => .ok (some (.hostChannelMessage user channel text))
  | .hostUserMessage source target text => .ok (some (.hostPrivateMessage source target text))
  | .hostUserData user host text => .ok (some (.hostPersonal user host text))
  | .hostAway user host time text => do
    let at' ← fromUnix time
    .ok (some (.hostAway user host at' text))
  | .hostTopic user host time channel text => do
    let at' ← fromUnix time
    .ok (some (.hostTopic user host at' channel text))
  | .hostInvite source user channel => .ok (some (.hostInvite source user channel))
  | .hostMode channel options => .ok (some (.hostMode channel options))
  -- the wire form names the granter, not the host of the user
  | .hostOper _ channel user => .ok (some (.hostOper user [] channel true))
  | .hostPing => .ok (some .hostPing)
  | .hostPong time => .ok (some (.hostPong time))
  | .hostLoop detail => .ok (some (.hostLoop detail))
  | command => .ok (some (.hostUnknown (HostCommandCodec.format command)))

/-- `ToHostCommand`: only the actions for the uplink are commands. -/
def toHostCommand : ConversAction → Option HostCommand
  | .sendUser user host timestamp fromChannel toChannel personal =>
    some (.hostUser user host (toUnix timestamp) fromChannel toChannel personal false)
  | .sendChannelMessage user channel text => some (.hostChannelMessage user channel text)
  | .sendPrivateMessage source target text => some (.hostUserMessage source target text)
  | .sendPersonal user host text => some (.hostUserData user host text)
  | .sendAway user host timestamp text => some (.hostAway user host (toUnix timestamp) text)
  | .sendTopic user host timestamp channel text =>
    some (.hostTopic user host (toUnix timestamp) channel text)
  | .sendInvite source user channel => some (.hostInvite source user channel)
  | .sendMode channel options => some (.hostMode channel options)
  | .sendPong millisecondsOrSentinel => some (.hostPong millisecondsOrSentinel)
  | _ => none

/-- The actions that become a command are the sends. -/
theorem isSome_toHostCommand (a : ConversAction) :
    (toHostCommand a).isSome = a.isSend := by
  cases a <;> rfl

/-- **The bridge answers an event from the hosts**, and a ping only for a ping. The hub so treats
what comes off a link as the word of another host. -/
theorem isLocal_of_toEvent {c : HostCommand} {event : ConversEvent}
    (h : toEvent c = .ok (some event)) :
    event.isLocal = false ∧ (event = .hostPing → c = .hostPing) := by
  have hstamp : ∀ (seconds : Int64) (f : DateTimeOffset → ConversEvent),
      (do let t ← fromUnix seconds; .ok (some (f t))) = Except.ok (some event) →
        ∃ t, f t = event := by
    intro seconds f hf
    rcases ht : fromUnix seconds with fault | t
    · rw [ht] at hf
      cases hf
    · rw [ht] at hf
      cases hf
      exact ⟨t, rfl⟩
  cases c with
  | hostUser user host timestamp fromChannel toChannel text isObserver =>
    obtain ⟨t, rfl⟩ := hstamp timestamp _ h
    exact ⟨rfl, nofun⟩
  | hostAway user host time text =>
    obtain ⟨t, rfl⟩ := hstamp time _ h
    exact ⟨rfl, nofun⟩
  | hostTopic user host time channel text =>
    obtain ⟨t, rfl⟩ := hstamp time _ h
    exact ⟨rfl, nofun⟩
  | hostHandshake hostname software facilities => cases h
  | hostPing => exact ⟨by cases h; rfl, fun _ => rfl⟩
  | _ =>
    cases h
    exact ⟨rfl, nofun⟩

/-- The timestamp of a command, for the verbs the bridge converts one of. -/
def timestamp? : HostCommand → Option Int64
  | .hostUser _ _ timestamp _ _ _ _ => some timestamp
  | .hostAway _ _ time _ => some time
  | .hostTopic _ _ time _ _ => some time
  | _ => none

theorem fromUnix_isOk_iff (seconds : Int64) :
    (∃ t, fromUnix seconds = .ok t) ↔ DateTimeOffset.InRange seconds.toInt := by
  rw [fromUnix, DateTimeOffset.fromUnixTimeSeconds]
  constructor
  · rintro ⟨t, ht⟩
    by_contra h
    rw [dif_neg h] at ht
    cases ht
  · intro h
    exact ⟨_, dif_pos h⟩

/-- **The bridge fails exactly on a timestamp that is no moment.** It is the one place where a line
of a stranger can throw. -/
theorem toEvent_isOk_iff (c : HostCommand) :
    (∃ event, toEvent c = .ok event) ↔
      ∀ seconds ∈ timestamp? c, DateTimeOffset.InRange seconds.toInt := by
  have hstamp : ∀ (seconds : Int64) (f : DateTimeOffset → Option ConversEvent),
      (∃ event, (do let t ← fromUnix seconds; .ok (f t)) = Except.ok event) ↔
        DateTimeOffset.InRange seconds.toInt := by
    intro seconds f
    rw [← fromUnix_isOk_iff]
    rcases fromUnix seconds with fault | t
    · constructor
      · rintro ⟨event, h⟩
        cases h
      · rintro ⟨t, h⟩
        cases h
    · exact ⟨fun _ => ⟨t, rfl⟩, fun _ => ⟨f t, rfl⟩⟩
  cases c with
  | hostUser user host timestamp fromChannel toChannel text isObserver =>
    refine (hstamp timestamp fun t => some
      (.hostUser user host t fromChannel toChannel text isObserver)).trans ?_
    simp [timestamp?]
  | hostAway user host time text =>
    refine (hstamp time fun t => some (.hostAway user host t text)).trans ?_
    simp [timestamp?]
  | hostTopic user host time channel text =>
    refine (hstamp time fun t => some (.hostTopic user host t channel text)).trans ?_
    simp [timestamp?]
  | _ => exact ⟨fun _ => by simp [timestamp?], fun _ => ⟨_, rfl⟩⟩

end HostBridge

end Convers
