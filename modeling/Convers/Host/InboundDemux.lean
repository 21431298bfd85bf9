import Convers.Protocol.HostCommandCodec
import Convers.Core.Model

/-!
# Who becomes a peer

With peering on, the demux reads the first lines of an inbound connection before anybody
is greeted: a `/..HOST`, which a `/..PASS` with the link password may precede. From an
allowed callsign, and with a password that will do, the connection becomes that of a
downstream peer, and the session gets every line that was read, the password among them
(`Convers.InboundDemux.peerLines_eq_some`). Anything else is a user.
-/

namespace Convers

/-- `ConversIdentity.BaseCallsign`: what is before the first `-`. -/
def ConversIdentity.baseCallsign (callsign : Text) : Option Text :=
  if isNullOrWhiteSpace callsign then none
  else
    let base := (trim callsign).takeWhile (· ≠ '-')
    if base.length = 0 then none else some (toUpperInvariant base)

/-- `PeeringPolicy`. -/
structure PeeringPolicy where
  enabled : Bool
  /-- `_allow`: the normalised callsigns. -/
  allow : List Text
  /-- `_password`, if one is required. -/
  password : Option Text

namespace PeeringPolicy

/-- The constructor. -/
def new (enabled : Bool) (allow : List Text) (password : Option Text) : PeeringPolicy where
  enabled := enabled
  allow := (allow.filter fun call => !isNullOrWhiteSpace call).map Callsigns.normalize
  password := password.filter (·.length ≠ 0)

/-- `IsAllowed`: the callsign or its base is on the list. -/
def isAllowed (p : PeeringPolicy) (remoteCallsign : Text) : Bool :=
  if !p.enabled || isNullOrWhiteSpace remoteCallsign then false
  else
    let call := Callsigns.normalize remoteCallsign
    p.allow.contains call || (ConversIdentity.baseCallsign call).any p.allow.contains

/-- `PasswordOk`: the secret is somewhere in what was presented. -/
def passwordOk (p : PeeringPolicy) (presented : Option Text) : Bool :=
  match p.password with
  | none => true
  | some password => presented.any fun text => text.length ≠ 0 && decide (password <:+: text)

end PeeringPolicy

namespace InboundDemux

/-- `MaxPeekLines`. -/
def maxPeekLines : ℕ := 2

/-- What was read before the connection is handed on. -/
structure Peeked where
  /-- `buffered`: the lines read. -/
  buffered : List Text
  /-- `password`: the body of the last `/..PASS`. -/
  password : Option Text
  /-- `hostLine`: the `/..HOST`. -/
  hostLine : Option Text

/-- The loop of `TryHandleAsPeerAsync` over the lines that arrive in time: it goes on after
a password only. -/
def peek : ℕ → Peeked → List Text → Peeked
  | k + 1, peeked, line :: lines =>
    let peeked := { peeked with buffered := peeked.buffered ++ [line] }
    match HostCommandCodec.tryParse line with
    | .ok (some (.hostHandshake ..)) => { peeked with hostLine := some line }
    | .ok (some (.unknownHostCommand verb body)) =>
      if verb = "PASS".toList then peek k { peeked with password := some body } lines else peeked
    | _ => peeked
  | _, peeked, _ => peeked

/-- `TryHandleAsPeerAsync`: the lines on the transport of the peer session, when there is to
be one. `PrependBufferedLines` puts the lines that were read before those that were not. -/
def peerLines (policy : PeeringPolicy) (remoteCallsign : Text) (lines : List Text) :
    Option (List Text) :=
  let peeked := peek maxPeekLines ⟨[], none, none⟩ lines
  if policy.enabled && peeked.hostLine.isSome && policy.isAllowed remoteCallsign &&
      policy.passwordOk peeked.password then
    some (peeked.buffered ++ lines.drop peeked.buffered.length)
  else none

/-- The lines that are read come off the front. -/
theorem buffered_peek (k : ℕ) (peeked : Peeked) (lines : List Text) :
    ∃ count, (peek k peeked lines).buffered = peeked.buffered ++ lines.take count := by
  induction k generalizing peeked lines with
  | zero => exact ⟨0, (List.append_nil _).symm⟩
  | succ k ih =>
    rcases lines with _ | ⟨line, lines⟩
    · exact ⟨0, (List.append_nil _).symm⟩
    · rw [peek]
      dsimp only
      split
      · exact ⟨1, rfl⟩
      · split
        · obtain ⟨count, hcount⟩ := ih ⟨peeked.buffered ++ [line], some _, peeked.hostLine⟩ lines
          exact ⟨count + 1, by rw [hcount, List.append_assoc]; rfl⟩
        · exact ⟨1, rfl⟩
      · exact ⟨1, rfl⟩

/-- **A peer session gets every line of its connection.** The lines that were read to tell it from a
user are put back in front. -/
theorem peerLines_eq_some {policy : PeeringPolicy} {remoteCallsign : Text}
    {lines lines' : List Text} (h : peerLines policy remoteCallsign lines = some lines') :
    lines' = lines := by
  obtain ⟨count, hcount⟩ := buffered_peek maxPeekLines ⟨[], none, none⟩ lines
  rw [peerLines] at h
  split at h
  · rw [hcount, List.nil_append, Option.some.injEq] at h
    rw [← h, List.length_take]
    rcases Nat.le_total count lines.length with hle | hle
    · rw [Nat.min_eq_left hle, List.take_append_drop]
    · rw [Nat.min_eq_right hle, List.take_of_length_le hle, List.drop_length, List.append_nil]
  · cases h

example : peerLines (.new true ["gb7xyz".toList] (some "s3cret".toList)) "GB7XYZ-1".toList
    ["/..PASS the s3cret".toList, "/..HOST GB7XYZ pdnconv1 amp".toList] =
      some ["/..PASS the s3cret".toList, "/..HOST GB7XYZ pdnconv1 amp".toList] := by
  decide +kernel

end InboundDemux

end Convers
