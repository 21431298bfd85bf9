import Convers.Host.Handshake

/-!
# The round trip a link measures

A `PONG` on an established link sets `lastRoundTripMs` to the time since
`lastPingRoundTripAt`, a field that only the sending of a `PING` sets: opening a
connection does not.

| the link, when a `PONG` comes | `lastRoundTripMs` |
|---|---|
| not established | not measured |
| established, a `PING` was sent | the time since the last one |
| established, no `PING` was sent | the time since the year 1 |

The last row is the one in which the measurement says nothing
(`Convers.HostLinkEngine.meaningful_iff`).
-/

namespace Convers

namespace HostLinkEngine

/-- A `PONG` line. -/
def isPong : HostCommand → Bool
  | .hostPong _ => true
  | _ => false

/-- The step takes a `PONG` line. -/
def Taken.hearsPong (t : Taken) : Bool :=
  match t.turn with
  | .line text => ((HostCommandCodec.stripPrefix text).map HostCommandCodec.parseBody).any isPong
  | .tick => false

/-- When the last `PING` of a log was sent. -/
def lastPing (log : List Taken) : Option DateTimeOffset :=
  ((log.filter Taken.pings).map Taken.now).getLast?

theorem lastPing_append (log : List Taken) (t : Taken) :
    lastPing (log ++ [t]) = if t.pings then some t.now else lastPing log := by
  rw [lastPing, List.filter_append, List.filter_cons, List.filter_nil]
  split
  · simp
  · rw [List.append_nil, lastPing]

theorem lastPing_eq_none {log : List Taken} :
    lastPing log = none ↔ ¬∃ s ∈ log, s.pings = true := by
  simp [lastPing]

theorem exists_of_lastPing {log : List Taken} {sent : DateTimeOffset}
    (h : lastPing log = some sent) :
    ∃ s ∈ log, s.pings = true ∧ s.now = sent := by
  obtain ⟨s, hs, hnow⟩ := List.mem_map.mp (List.mem_of_getLast? h)
  obtain ⟨hmem, hping⟩ := List.mem_filter.mp hs
  exact ⟨s, hmem, hping, hnow⟩

/-- **A measurement that says something**: what a step leaves is the time since the last
`PING` in whole milliseconds, nothing when there was none, and no more than the age of the
connection. -/
def Meaningful (start : DateTimeOffset) (earlier : List Taken) (t : Taken) : Prop :=
  t.after.lastRoundTripMs.map Nat.cast =
      (lastPing earlier).map (fun sent => elapsed sent t.now / 10000) ∧
    ∀ ms ∈ t.after.lastRoundTripMs, (ms : ℤ) ≤ elapsed start t.now / 10000

/-- What the clocks hold after some steps: the moment of the last `PING`, the year 1 before
the first, and no measurement before the link is established. -/
structure Clocked (log : List Taken) (e : HostLinkEngine) : Prop where
  pingAt : e.lastPingRoundTripAt = (lastPing log).getD defaultTime
  established : (∃ s ∈ log, s.pings = true) → e.state = .established
  measured : e.state ≠ .established → e.lastRoundTripMs = none
  connected : e.state ≠ .disconnected

theorem clocked_opened (options : HostLinkOptions) (inbound : Bool) (start : DateTimeOffset) :
    Clocked [] (opened options inbound start).1 := by
  cases inbound with
  | false => exact ⟨rfl, by simp, fun _ => rfl, nofun⟩
  | true => exact ⟨rfl, by simp, fun _ => rfl, nofun⟩

/-- While the link is handshaking, a line establishes it or measures nothing. -/
theorem lastRoundTripMs_of_handshaking {now : DateTimeOffset} {e e' : HostLinkEngine}
    {step : EngineStep} {text : Text} (hstate : e.state = .handshaking)
    (h : e.onLineReceived now text = .ok (e', step)) :
    e'.state = .established ∨ e'.lastRoundTripMs = e.lastRoundTripMs := by
  rw [onLineReceived_eq] at h
  split at h
  · cases h
    exact Or.inr rfl
  · rename_i c hc
    rw [hstate] at h
    cases c with
    | hostHandshake hostname software facilities =>
      cases h
      exact Or.inl rfl
    | _ =>
      obtain ⟨he, -, -⟩ := of_bridge h
      exact Or.inr (congrArg lastRoundTripMs he :)

namespace Clocked

variable {log : List Taken} {t : Taken}

/-- A step that sends no `PING` and never leaves the established state. -/
theorem append (hc : Clocked log t.before) (hping : ¬t.pings = true)
    (hat : t.after.lastPingRoundTripAt = t.before.lastPingRoundTripAt)
    (hstays : t.before.state = .established → t.after.state = .established)
    (hmeasured : t.after.state ≠ .established → t.after.lastRoundTripMs = t.before.lastRoundTripMs)
    (hconnected : t.after.state ≠ .disconnected) : Clocked (log ++ [t]) t.after := by
  constructor
  · rw [lastPing_append, if_neg hping, hat, hc.pingAt]
  · rintro ⟨s, hs, hsent⟩
    rcases List.mem_append.mp hs with hs | hs
    · exact hstays (hc.established ⟨s, hs, hsent⟩)
    · exact absurd (List.mem_singleton.mp hs ▸ hsent) hping
  · intro hstate
    exact (hmeasured hstate).trans (hc.measured fun hbefore => hstate (hstays hbefore))
  · exact hconnected

/-- **Every step keeps the clocks.** -/
theorem take (hc : Clocked log t.before)
    (htake : t.before.take t.now t.turn = .ok (t.after, t.step)) :
    Clocked (log ++ [t]) t.after := by
  have hmove := move_take hc.connected htake
  by_cases hping : t.pings = true
  · -- a ping is sent on an established link, which notes when
    obtain ⟨hstate, -, -, hafter⟩ := ping_of_move hmove hping
    constructor
    · rw [lastPing_append, if_pos hping, hafter]
      rfl
    · rw [hafter]
      exact fun _ => hstate
    · rw [hafter]
      exact fun hne => absurd hstate hne
    · rw [hafter]
      exact hc.connected
  · obtain ⟨now, turn, before, after, step⟩ := t
    dsimp only at hc htake hmove
    cases hmove with
    | heard text hother he hplain =>
      have hstate : after.state = before.state := (congrArg HostLinkEngine.state he :)
      refine hc.append hping (congrArg lastPingRoundTripAt he :) (fun h => hstate.trans h)
        (fun hne => ?_) (fun hdis => hc.connected (hstate.symm.trans hdis))
      have hhandshaking : before.state = .handshaking := by
        rcases hbefore : before.state with _ | _ | _
        · exact absurd hbefore hc.connected
        · rfl
        · exact absurd (hstate.trans hbefore) hne
      exact (lastRoundTripMs_of_handshaking hhandshaking htake).resolve_left hne
    | completed text hannounces hstate he hstep =>
      have hafter : after.state = .established := congrArg HostLinkEngine.state he
      refine hc.append hping (congrArg lastPingRoundTripAt he :) (fun _ => hafter)
        (fun hne => absurd hafter hne) ?_
      rw [hafter]
      nofun
    | again text hannounces hstate he hplain hdrop =>
      refine hc.append hping (congrArg lastPingRoundTripAt he :) (fun h => ?_)
        (fun _ => (congrArg lastRoundTripMs he :)) ?_
      · exact (congrArg HostLinkEngine.state he).trans h
      · rw [he]
        exact hc.connected
    | stalled hstate he hplain hdrop | silent hstate he hplain hdrop
    | idle hfresh hheard he hstep =>
      refine hc.append hping (congrArg lastPingRoundTripAt he :) (fun h => ?_)
        (fun _ => (congrArg lastRoundTripMs he :)) ?_
      · exact (congrArg HostLinkEngine.state he).trans h
      · rw [he]
        exact hc.connected
    | pinged hstate hheard hdue he hstep =>
      refine absurd (decide_eq_true ?_) hping
      rw [hstep]
      exact List.mem_singleton_self _

end Clocked

/-- A `PONG` sets the measurement on an established link only. -/
theorem lastRoundTripMs_of_hearsPong {t : Taken} (hpong : t.hearsPong = true)
    (hconnected : t.before.state ≠ .disconnected)
    (htake : t.before.take t.now t.turn = .ok (t.after, t.step)) :
    t.after.lastRoundTripMs =
      if t.before.state = .established then
        some ((t.now.ticks - t.before.lastPingRoundTripAt.ticks) / 10000)
      else t.before.lastRoundTripMs := by
  obtain ⟨now, turn, before, after, step⟩ := t
  dsimp only at hconnected htake ⊢
  cases turn with
  | tick => cases hpong
  | line text =>
    have hread : before.onLineReceived now text = .ok (after, step) := htake
    have hparsed : ∃ time, (HostCommandCodec.stripPrefix text).map HostCommandCodec.parseBody =
        some (.hostPong time) := by
      have hany : ((HostCommandCodec.stripPrefix text).map HostCommandCodec.parseBody).any isPong =
          true := hpong
      obtain ⟨c, hc, hpong⟩ := (Option.any_eq_true _ _).mp hany
      cases c with
      | hostPong time => exact ⟨time, hc⟩
      | _ => cases hpong
    obtain ⟨time, hparsed⟩ := hparsed
    rw [onLineReceived_eq, hparsed] at hread
    rcases hstate : before.state with _ | _ | _
    · exact absurd hstate hconnected
    · rw [hstate] at hread
      cases hread
      rfl
    · rw [hstate] at hread
      cases hread
      rfl

/-- **A measurement says something exactly when a `PING` has been sent** or the link is not
established: at every `PONG` of every connection, in either role and with any options, on a clock
that does not go back. A pong that comes first is measured from a time at which nothing was sent. -/
theorem meaningful_iff (options : HostLinkOptions) (inbound : Bool) (start : DateTimeOffset)
    (inputs : List (DateTimeOffset × Turn))
    (hclock : (start :: inputs.map Prod.fst).Pairwise fun a b => a.ticks ≤ b.ticks)
    (earlier : List Taken) (t : Taken) (later : List Taken)
    (hlog : run (opened options inbound start).1 inputs = earlier ++ t :: later)
    (hpong : t.hearsPong = true) :
    Meaningful start earlier t ↔
      (t.before.state ≠ .established ∨ ∃ s ∈ earlier, s.pings = true) := by
  obtain ⟨hc, htake⟩ := run_invariant (clocked_opened options inbound start)
    (fun log t hc htake => hc.take htake) hlog
  rw [List.nil_append] at hc
  have hset := lastRoundTripMs_of_hearsPong hpong hc.connected htake
  have hclock' :
      (start :: (earlier ++ [t]).map Taken.now).Pairwise fun a b => a.ticks ≤ b.ticks := by
    have hpre := now_run_prefix (opened options inbound start).1 inputs
    rw [hlog, List.append_cons, List.map_append] at hpre
    exact hclock.sublist (((List.prefix_append _ _).trans hpre).sublist.cons_cons start)
  by_cases hstate : t.before.state = .established
  · rw [if_pos hstate, hc.pingAt] at hset
    rcases hlast : lastPing earlier with _ | sent
    · -- the measurement is set, and there is nothing it could be the time since
      refine iff_of_false ?_ (not_or.mpr ⟨not_not.mpr hstate, lastPing_eq_none.mp hlast⟩)
      rintro ⟨hvalue, -⟩
      rw [hset, hlast] at hvalue
      cases hvalue
    · obtain ⟨s, hs, hping, rfl⟩ := exists_of_lastPing hlast
      rw [List.map_append, ← List.cons_append, List.pairwise_append] at hclock'
      obtain ⟨hbefore, -, hlast'⟩ := hclock'
      have hsent : s.now.ticks ≤ t.now.ticks :=
        hlast' s.now (List.mem_cons_of_mem _ (List.mem_map_of_mem hs)) t.now (by simp)
      have hstart : start.ticks ≤ s.now.ticks :=
        List.rel_of_pairwise_cons hbefore (List.mem_map_of_mem hs)
      rw [hlast, Option.getD_some] at hset
      refine iff_of_true ⟨?_, ?_⟩ (Or.inr ⟨s, hs, hping⟩)
      · rw [hset, hlast, Option.map_some, Option.map_some, elapsed]
        congr 1
        omega
      · rw [hset]
        rintro ms hms
        rw [← Option.some.inj hms, elapsed]
        omega
  · have hnone : lastPing earlier = none :=
      lastPing_eq_none.mpr fun hping => hstate (hc.established hping)
    rw [if_neg hstate, hc.measured hstate] at hset
    refine iff_of_true ⟨?_, ?_⟩ (Or.inl hstate)
    · rw [hset, hnone]
      rfl
    · rw [hset]
      nofun

/-- The new year of 2026. -/
def exampleStart : DateTimeOffset := ⟨639028224000000000, by omega⟩

/-- Some ticks later. -/
def exampleLater (ticks : ℕ) (h : ticks ≤ 1000000000 := by omega) : DateTimeOffset :=
  ⟨exampleStart.ticks + ticks, by simp only [exampleStart]; omega⟩

/-- A parent that answers the announcement after a second. -/
def exampleReply : DateTimeOffset × Turn :=
  (exampleLater 10000000, .line "/..HOST PARENT saupp1.62a Aadmpunfi".toList)

/-- The parent is pinged after a minute, and its answer takes a quarter of a second. -/
def exampleAnswered : List Taken :=
  run (opened (HostLinkOptions.ofHostName "NODE".toList) false exampleStart).1
    [exampleReply, (exampleLater 600000000, .tick),
      (exampleLater 602500000, .line "/..PONG 0".toList)]

/-- That answer is measured. -/
theorem meaningful_exampleAnswered :
    ∃ earlier t later, exampleAnswered = earlier ++ t :: later ∧ t.hearsPong = true ∧
      (Meaningful exampleStart earlier t ↔
        (t.before.state ≠ .established ∨ ∃ s ∈ earlier, s.pings = true)) := by
  obtain ⟨t, later, hdrop⟩ : ∃ t later, exampleAnswered.drop 2 = t :: later :=
    List.exists_cons_of_ne_nil (by decide +kernel)
  have hlog : exampleAnswered = exampleAnswered.take 2 ++ t :: later := by
    rw [← hdrop, List.take_append_drop]
  have hpong : t.hearsPong = true := by
    have hhead : (exampleAnswered.drop 2).head?.any Taken.hearsPong = true := by decide +kernel
    rwa [hdrop] at hhead
  exact ⟨_, t, later, hlog, hpong, meaningful_iff (HostLinkOptions.ofHostName "NODE".toList) false
    exampleStart _ (by decide) _ t later hlog hpong⟩

/-- The parent answers a ping that was never sent. -/
def exampleUnasked : List Taken :=
  run (opened (HostLinkOptions.ofHostName "NODE".toList) false exampleStart).1
    [exampleReply, (exampleLater 20000000, .line "/..PONG 0".toList)]

/-- **An answer nobody asked for is measured from the year 1.** It is the figure that the status of
the node shows. -/
theorem not_meaningful_exampleUnasked :
    ¬ ∀ (options : HostLinkOptions) (inbound : Bool) (start : DateTimeOffset)
      (inputs : List (DateTimeOffset × Turn)),
      (start :: inputs.map Prod.fst).Pairwise (fun a b => a.ticks ≤ b.ticks) →
      ∀ (earlier : List Taken) (t : Taken) (later : List Taken),
        run (opened options inbound start).1 inputs = earlier ++ t :: later →
          t.hearsPong = true → Meaningful start earlier t := by
  intro hall
  obtain ⟨t, later, hdrop⟩ : ∃ t later, exampleUnasked.drop 1 = t :: later :=
    List.exists_cons_of_ne_nil (by decide +kernel)
  have hlog : exampleUnasked = exampleUnasked.take 1 ++ t :: later := by
    rw [← hdrop, List.take_append_drop]
  have hset : t.hearsPong = true ∧ t.after.lastRoundTripMs = some 63902822402000 := by
    have hhead : (exampleUnasked.drop 1).head?.any (fun t =>
        t.hearsPong && decide (t.after.lastRoundTripMs = some 63902822402000)) = true := by
      decide +kernel
    rw [hdrop] at hhead
    simpa using hhead
  obtain ⟨hvalue, -⟩ := hall (HostLinkOptions.ofHostName "NODE".toList) false exampleStart _
    (by decide) _ t later hlog hset.1
  have hnone : lastPing (exampleUnasked.take 1) = none := by decide +kernel
  rw [hset.2, hnone] at hvalue
  cases hvalue

end HostLinkEngine

end Convers
