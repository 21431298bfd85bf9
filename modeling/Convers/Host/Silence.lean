import Convers.Host.Identity
import Convers.Host.RoundTrip

/-!
# The silence of a healthy link

A link is looked at on a grid: every quarter of its ping interval, but not more often than
every 50 ms (`Convers.HostLinkOptions.tickInterval`). At a tick silence comes first, and only
a link that has been heard of lately is pinged. So a `PING` goes out at the first tick at which
it is due, one step of the grid after the interval at the latest, and by then the link has
been silent since the last answer.

`Convers.HostLinkOptions.pingDue` is that moment: the ping interval, rounded up to the grid.
`Convers.HostLinkOptions.validate` asks for a silence timeout longer than the interval itself.

| | the interval on the grid | a silence timeout just above the interval |
|---|---|---|
| 200 ms or more, in four whole steps | the interval | never fires |
| 200 ms or more, otherwise | up to a quarter more | fires at the fifth tick |
| shorter | the next multiple of 50 ms | fires before the `PING` |

`Convers.HostLinkEngine.spares_iff` says that a healthy link is never torn down for silence
exactly when the silence timeout is longer than the rounded interval, or the link is never
established, or the rounded interval ends after the calendar does.
-/

namespace Convers

namespace HostLinkOptions

variable (options : HostLinkOptions)

/-- `_tickInterval`, in ticks of the clock. The source takes the quarter of the interval through a
`double` of milliseconds, whose rounding is left out. -/
def tickInterval : ℤ := max (50 * 10000) (options.pingInterval / 4)

/-- The first moment of the grid at which a `PING` is due. -/
def pingDue : ℤ :=
  (options.pingInterval + options.tickInterval - 1) / options.tickInterval * options.tickInterval

/-- The last moment of the calendar. -/
def lastMoment : ℤ := 3155378975999999999

/-- The `PING` falls due before the silence timeout does. One that is due past the end of the
calendar is never awaited. -/
def PingsFirst : Prop :=
  options.pingDue < options.silenceTimeout ∨ lastMoment < options.pingDue

/-- **The condition under which a healthy link is spared**: the `PING` falls due first, or the
handshake can never be in time. -/
def PingsInTime : Prop := options.handshakeTimeout ≤ 0 ∨ options.PingsFirst

instance : Decidable options.PingsFirst := inferInstanceAs (Decidable (_ ∨ _))

instance : Decidable options.PingsInTime := inferInstanceAs (Decidable (_ ∨ _))

end HostLinkOptions

namespace HostLinkEngine

/-- The reason for which a silent link is dropped. -/
def silenceReason : Text := "silence timeout (no traffic from parent)".toList

/-- The ticks of a log. -/
def tickCount (log : List Taken) : ℕ := log.countP (·.turn = .tick)

/-- **A healthy link**: the clock does not go back, a tick comes at every multiple of the tick
interval from the start on, a handshake that completes is in time, and between a tick that
pings and the next tick there is a `PONG`. -/
structure Healthy (options : HostLinkOptions) (start : DateTimeOffset) (log : List Taken) :
    Prop where
  clock : (start :: log.map Taken.now).Pairwise fun a b => a.ticks ≤ b.ticks
  paced : ∀ (earlier : List Taken) (t : Taken) (later : List Taken),
    log = earlier ++ t :: later → t.turn = .tick →
      (t.now.ticks : ℤ) = start.ticks + (tickCount earlier + 1) * options.tickInterval
  prompt : ∀ t ∈ log, t.step.handshakeCompleted = true →
    elapsed start t.now < options.handshakeTimeout
  answered : ∀ (earlier : List Taken) (t : Taken) (middle : List Taken) (next : Taken)
    (later : List Taken), log = earlier ++ t :: (middle ++ next :: later) →
    t.pings = true → (∀ s ∈ middle, s.turn ≠ .tick) → next.turn = .tick →
      ∃ s ∈ middle, s.hearsPong = true

/-- **The link is never torn down for silence**: on every healthy connection, no tick says so. -/
def Spares (options : HostLinkOptions) (inbound : Bool) : Prop :=
  ∀ (start : DateTimeOffset) (inputs : List (DateTimeOffset × Turn)),
    Healthy options start (run (opened options inbound start).1 inputs) →
      ∀ t ∈ run (opened options inbound start).1 inputs,
        t.turn = .tick → t.step.dropReason ≠ some silenceReason

/-! ### A tick -/

section Tick

variable {now : DateTimeOffset} {e : HostLinkEngine}

theorem onTick_of_handshaking (now : DateTimeOffset) (hstate : e.state = .handshaking) :
    (e.onTick now).1 = e ∧ (e.onTick now).2.dropReason ≠ some silenceReason ∧
      (e.onTick now).2.outboundCommands = [] := by
  unfold onTick
  dsimp only
  split
  · refine ⟨rfl, fun h => ?_, rfl⟩
    have hreasons : "handshake timeout (no /..HOST reply)".toList ≠ silenceReason := by decide
    exact hreasons (Option.some.inj h)
  · rw [if_pos (by simp [hstate])]
    exact ⟨rfl, nofun, rfl⟩

/-- On an established link silence comes before the `PING`. -/
theorem onTick_of_established (hstate : e.state = .established) :
    e.onTick now =
      if e.options.silenceTimeout ≤ elapsed e.lastInbound now then
        (e, { EngineStep.none with dropReason := some silenceReason })
      else if e.options.pingInterval ≤ elapsed e.lastPingSent now then
        ({ e with lastPingSent := now, lastPingRoundTripAt := now },
          { EngineStep.none with outboundCommands := [.hostPing] })
      else (e, EngineStep.none) := by
  unfold onTick
  dsimp only
  rw [if_neg (by simp [hstate]), if_neg (by simp [hstate])]
  rfl

theorem onTick_of_silent (hstate : e.state = .established)
    (hsilent : e.options.silenceTimeout ≤ elapsed e.lastInbound now) :
    e.onTick now = (e, { EngineStep.none with dropReason := some silenceReason }) := by
  rw [onTick_of_established hstate, if_pos hsilent]

theorem onTick_of_due (hstate : e.state = .established)
    (hheard : elapsed e.lastInbound now < e.options.silenceTimeout)
    (hdue : e.options.pingInterval ≤ elapsed e.lastPingSent now) :
    e.onTick now = ({ e with lastPingSent := now, lastPingRoundTripAt := now },
      { EngineStep.none with outboundCommands := [.hostPing] }) := by
  rw [onTick_of_established hstate, if_neg (not_le.mpr hheard), if_pos hdue]

theorem onTick_of_idle (hstate : e.state = .established)
    (hheard : elapsed e.lastInbound now < e.options.silenceTimeout)
    (hidle : elapsed e.lastPingSent now < e.options.pingInterval) :
    e.onTick now = (e, EngineStep.none) := by
  rw [onTick_of_established hstate, if_neg (not_le.mpr hheard), if_neg (not_le.mpr hidle)]

end Tick

/-! ### The grid -/

section Grid

variable {options : HostLinkOptions}

theorem tickInterval_pos (options : HostLinkOptions) : 0 < options.tickInterval :=
  lt_of_lt_of_le (by norm_num) (le_max_left _ _)

/-- A moment of the grid before the interval is over is a step before the `PING` is due. -/
theorem add_tickInterval_le_pingDue {n : ℤ} (hn : n * options.tickInterval < options.pingInterval) :
    n * options.tickInterval + options.tickInterval ≤ options.pingDue := by
  have hpos := tickInterval_pos options
  have hsucc :
      n + 1 ≤ (options.pingInterval + options.tickInterval - 1) / options.tickInterval := by
    rw [Int.le_ediv_iff_mul_le hpos, add_mul, one_mul]
    omega
  calc n * options.tickInterval + options.tickInterval = (n + 1) * options.tickInterval := by ring
    _ ≤ options.pingDue := Int.mul_le_mul_of_nonneg_right hsucc hpos.le

/-- A moment of the calendar a step after one at which the interval is not over is before the
silence timeout. -/
theorem add_tickInterval_lt {n : ℤ} (hvalid : options.pingInterval < options.silenceTimeout)
    (hfirst : options.PingsFirst) (hn : n * options.tickInterval < options.pingInterval)
    (hlast : n * options.tickInterval + options.tickInterval ≤ HostLinkOptions.lastMoment) :
    n * options.tickInterval + options.tickInterval < options.silenceTimeout := by
  have hdue := add_tickInterval_le_pingDue hn
  rcases hfirst with hlt | hcalendar
  · omega
  · -- the moment is on the grid before the `PING` is due, so the interval is not over then
    have hpos := tickInterval_pos options
    have hbefore : (n + 1) * options.tickInterval <
        (options.pingInterval + options.tickInterval - 1) / options.tickInterval *
          options.tickInterval := by
      rw [add_mul, one_mul]
      exact lt_of_le_of_lt hlast hcalendar
    have hmul := (Int.le_ediv_iff_mul_le hpos).mp
      (Int.add_one_le_of_lt (lt_of_mul_lt_mul_right hbefore hpos.le))
    rw [add_mul, add_mul, one_mul] at hmul
    omega

/-- A step of the grid is shorter than the silence timeout. -/
theorem tickInterval_lt (hping : 0 < options.pingInterval)
    (hvalid : options.pingInterval < options.silenceTimeout) (hfirst : options.PingsFirst) :
    options.tickInterval < options.silenceTimeout := by
  have hzero : (0 : ℤ) * options.tickInterval + options.tickInterval = options.tickInterval := by
    ring
  rcases le_or_gt options.tickInterval HostLinkOptions.lastMoment with hle | hgt
  · rw [← hzero] at hle ⊢
    exact add_tickInterval_lt hvalid hfirst (by rwa [zero_mul]) hle
  · -- so long a step is a quarter of the interval
    have hmax : options.tickInterval = max (50 * 10000) (options.pingInterval / 4) := rfl
    have hlast : HostLinkOptions.lastMoment = 3155378975999999999 := rfl
    omega

end Grid

/-! ### What a healthy link keeps -/

section Kept

variable {options : HostLinkOptions} {inbound : Bool} {start : DateTimeOffset} {log : List Taken}
  {t : Taken}

theorem tickCount_append (log : List Taken) (t : Taken) :
    tickCount (log ++ [t]) = tickCount log + if t.turn = .tick then 1 else 0 := by
  rw [tickCount, List.countP_append, List.countP_singleton]
  simp [tickCount]

/-- The moment of the last tick of a log, or of the start. -/
def lastTick (options : HostLinkOptions) (start : DateTimeOffset) (log : List Taken) : ℤ :=
  start.ticks + tickCount log * options.tickInterval

/-- What is healthy was so a step before. -/
theorem Healthy.of_append (h : Healthy options start (log ++ [t])) : Healthy options start log where
  clock := by
    have hclock := h.clock
    rw [List.map_append, ← List.cons_append, List.pairwise_append] at hclock
    exact hclock.1
  paced earlier s later hlog := h.paced earlier s (later ++ [t]) (by rw [hlog]; simp)
  prompt s hs := h.prompt s (List.mem_append_left _ hs)
  answered earlier s middle next later hlog :=
    h.answered earlier s middle next (later ++ [t]) (by rw [hlog]; simp)

/-- Every part of the log, from the start on, is healthy. -/
theorem Healthy.of_prefix {later : List Taken} (h : Healthy options start (log ++ later)) :
    Healthy options start log := by
  induction later using List.reverseRecOn with
  | nil => rwa [List.append_nil] at h
  | append_singleton later t ih =>
    rw [← List.append_assoc] at h
    exact ih h.of_append

/-- The next tick is a step of the grid later. -/
theorem Healthy.now_of_tick (h : Healthy options start (log ++ [t])) (hturn : t.turn = .tick) :
    (t.now.ticks : ℤ) = lastTick options start log + options.tickInterval := by
  rw [h.paced log t [] rfl hturn, lastTick]
  ring

/-- Nothing of a log comes after its last step. -/
theorem Healthy.le_now (h : Healthy options start (log ++ [t])) :
    ∀ s ∈ start :: log.map Taken.now, s.ticks ≤ t.now.ticks := by
  have hclock := h.clock
  rw [List.map_append, ← List.cons_append, List.pairwise_append] at hclock
  exact fun s hs => hclock.2.2 s hs t.now (by simp)

/-- **What a healthy link keeps**: the last `PING` was on the grid; since the last tick less than
the interval has gone by from it, unless the link has been heard of since; and the link has been
heard of since that `PING`, unless it was the last step. -/
structure Punctual (options : HostLinkOptions) (start : DateTimeOffset) (log : List Taken)
    (e : HostLinkEngine) : Prop where
  grid : ∃ n : ℤ, lastTick options start log - e.lastPingSent.ticks = n * options.tickInterval
  pinged : (e.lastPingSent.ticks : ℤ) ≤ lastTick options start log
  anchor : ∃ s ∈ start :: log.map Taken.now, (s.ticks : ℤ) = lastTick options start log
  young : e.state = .established →
    lastTick options start log - e.lastPingSent.ticks < options.pingInterval ∨
      lastTick options start log ≤ e.lastInbound.ticks
  heard : e.state = .established → e.lastPingSent.ticks ≤ e.lastInbound.ticks ∨
    ∃ earlier s, log = earlier ++ [s] ∧ s.pings = true

theorem punctual_opened : Punctual options start [] (opened options inbound start).1 := by
  have hping : (opened options inbound start).1.lastPingSent = start := since_opened.pinged
  have hstate : (opened options inbound start).1.state ≠ .established := by
    rw [since_opened.state]
    nofun
  have htick : lastTick options start [] = start.ticks := by simp [lastTick, tickCount]
  refine ⟨⟨0, ?_⟩, ?_, ⟨start, by simp, htick.symm⟩, fun h => absurd h hstate,
    fun h => absurd h hstate⟩
  · rw [htick, hping]
    ring
  · rw [htick, hping]

/-- At a tick the last `PING` has been answered. -/
theorem Punctual.lastPingSent_le (hp : Punctual options start log t.before)
    (h : Healthy options start (log ++ [t])) (hturn : t.turn = .tick)
    (hstate : t.before.state = .established) :
    t.before.lastPingSent.ticks ≤ t.before.lastInbound.ticks := by
  refine (hp.heard hstate).resolve_right ?_
  rintro ⟨earlier, s, rfl, hs⟩
  obtain ⟨u, hu, -⟩ := h.answered earlier s [] t [] (by simp) hs (by simp) hturn
  cases hu

/-- **A healthy link has been heard from within the silence timeout**, at every tick. It answered
the last ping, which is not long ago. -/
theorem Punctual.elapsed_lt (hp : Punctual options start log t.before)
    (h : Healthy options start (log ++ [t])) (hping : 0 < options.pingInterval)
    (hvalid : options.pingInterval < options.silenceTimeout) (hfirst : options.PingsFirst)
    (hturn : t.turn = .tick) (hstate : t.before.state = .established) :
    elapsed t.before.lastInbound t.now < options.silenceTimeout := by
  have hnow := h.now_of_tick hturn
  have hheard := hp.lastPingSent_le h hturn hstate
  rw [elapsed]
  rcases hp.young hstate with hyoung | hlate
  · obtain ⟨n, hn⟩ := hp.grid
    have hcalendar : (t.now.ticks : ℤ) ≤ HostLinkOptions.lastMoment :=
      Int.ofNat_le.mpr t.now.ticks_le
    rw [hn] at hyoung
    have hgrid := add_tickInterval_lt hvalid hfirst hyoung (by omega)
    omega
  · have hstep := tickInterval_lt hping hvalid hfirst
    omega

/-- A line that is taken leaves the link punctual. -/
theorem Punctual.line (hp : Punctual options start log t.before)
    (h : Healthy options start (log ++ [t])) {text : Text} (hturn : t.turn = .line text)
    (hpinged : t.after.lastPingSent = t.before.lastPingSent)
    (hheard : t.after.lastInbound = t.now) : Punctual options start (log ++ [t]) t.after := by
  have htick : lastTick options start (log ++ [t]) = lastTick options start log := by
    rw [lastTick, tickCount_append, hturn, if_neg nofun, Nat.add_zero, lastTick]
  obtain ⟨s, hs, hanchor⟩ := hp.anchor
  have hle := h.le_now s hs
  refine ⟨?_, ?_, ⟨s, ?_, ?_⟩, fun _ => Or.inr ?_, fun _ => Or.inl ?_⟩
  · rw [htick, hpinged]
    exact hp.grid
  · rw [htick, hpinged]
    exact hp.pinged
  · rw [List.map_append, ← List.cons_append]
    exact List.mem_append_left _ hs
  · rw [htick]
    exact hanchor
  · rw [htick, hheard]
    omega
  · have := hp.pinged
    rw [hpinged, hheard]
    omega

/-- A tick leaves the link punctual. -/
theorem Punctual.tick (hp : Punctual options start log t.before)
    (h : Healthy options start (log ++ [t])) (hping : 0 < options.pingInterval)
    (hvalid : options.pingInterval < options.silenceTimeout) (hfirst : options.PingsFirst)
    (hoptions : t.before.options = options)
    (hopen : t.before.state ≠ .disconnected) (hturn : t.turn = .tick)
    (htake : t.before.onTick t.now = (t.after, t.step)) :
    Punctual options start (log ++ [t]) t.after := by
  have htick : lastTick options start (log ++ [t]) = t.now.ticks := by
    rw [h.now_of_tick hturn, lastTick, tickCount_append, if_pos hturn, lastTick]
    push_cast
    ring
  have hanchor : ∃ s ∈ start :: (log ++ [t]).map Taken.now,
      (s.ticks : ℤ) = lastTick options start (log ++ [t]) := ⟨t.now, by simp, htick.symm⟩
  have hnow := h.now_of_tick hturn
  have hpos := tickInterval_pos options
  obtain ⟨n, hn⟩ := hp.grid
  have hpinged := hp.pinged
  have hgrid :
      (t.now.ticks : ℤ) - t.before.lastPingSent.ticks = (n + 1) * options.tickInterval := by
    rw [add_mul, one_mul]
    omega
  rcases hstate : t.before.state with _ | _ | _
  · exact absurd hstate hopen
  · -- a handshake is left as it is
    obtain ⟨hafter, -⟩ := onTick_of_handshaking t.now hstate
    rw [htake] at hafter
    have hafter : t.after = t.before := hafter
    have hnot : t.after.state ≠ .established := by
      rw [hafter, hstate]
      nofun
    refine ⟨⟨n + 1, ?_⟩, ?_, hanchor, fun he => absurd he hnot, fun he => absurd he hnot⟩
    · rw [htick, hafter, hgrid]
    · rw [htick, hafter]
      omega
  · have hlt : elapsed t.before.lastInbound t.now < t.before.options.silenceTimeout := by
      rw [hoptions]
      exact hp.elapsed_lt h hping hvalid hfirst hturn hstate
    rcases le_or_gt t.before.options.pingInterval (elapsed t.before.lastPingSent t.now) with
      hsend | hidle
    · -- the `PING` of this tick puts the grid back to zero
      rw [onTick_of_due hstate hlt hsend] at htake
      obtain ⟨hafter, hstep⟩ := Prod.mk.inj htake
      have hat : t.after.lastPingSent = t.now := by rw [← hafter]
      refine ⟨⟨0, ?_⟩, ?_, hanchor, fun _ => Or.inl ?_, fun _ => Or.inr ⟨log, t, rfl, ?_⟩⟩
      · rw [htick, hat]
        ring
      · rw [htick, hat]
      · rw [htick, hat]
        omega
      · rw [Taken.pings, ← hstep]
        exact decide_eq_true (List.mem_singleton_self _)
    · -- the interval is not over
      rw [onTick_of_idle hstate hlt hidle] at htake
      obtain ⟨hafter, -⟩ := Prod.mk.inj htake
      have hafter : t.after = t.before := hafter.symm
      rw [elapsed, hoptions] at hidle
      refine ⟨⟨n + 1, ?_⟩, ?_, hanchor, fun _ => Or.inl ?_, fun _ => ?_⟩
      · rw [htick, hafter, hgrid]
      · rw [htick, hafter]
        omega
      · rw [htick, hafter]
        exact hidle
      · rw [hafter]
        exact Or.inl (hp.lastPingSent_le h hturn hstate)

/-- **Every step leaves the link punctual.** The moments are counted in ticks of the timer from here
on. -/
theorem Punctual.take (hp : Punctual options start log t.before)
    (hs : Since options inbound start log t.before) (h : Healthy options start (log ++ [t]))
    (hping : 0 < options.pingInterval)
    (hvalid : options.pingInterval < options.silenceTimeout) (hfirst : options.PingsFirst)
    (htake : t.before.take t.now t.turn = .ok (t.after, t.step)) :
    Punctual options start (log ++ [t]) t.after := by
  rcases hturn : t.turn with text | _
  · have hmove := move_take hs.ne_disconnected htake
    rw [hturn] at hmove
    cases hmove with
    | heard text hother he hplain =>
      exact hp.line h hturn (congrArg lastPingSent he :) (congrArg lastInbound he :)
    | completed text hannounces hstate he hstep =>
      exact hp.line h hturn (congrArg lastPingSent he :) (congrArg lastInbound he :)
    | again text hannounces hstate he hplain hdrop =>
      exact hp.line h hturn (congrArg lastPingSent he :) (congrArg lastInbound he :)
  · rw [hturn] at htake
    exact hp.tick h hping hvalid hfirst hs.options hs.ne_disconnected hturn (Except.ok.inj htake)

/-- **A link whose `PING` is due in time is spared.** It covers every healthy run, in either role.
-/
theorem spares_of_pingsFirst (hping : 0 < options.pingInterval)
    (hvalid : options.pingInterval < options.silenceTimeout) (hfirst : options.PingsFirst) :
    Spares options inbound := by
  intro start inputs hhealthy t ht hturn hdrop
  obtain ⟨earlier, later, hrun⟩ := List.append_of_mem ht
  obtain ⟨⟨hs, hp⟩, htake⟩ := run_invariant
    (I := fun log e => Since options inbound start log e ∧
      (Healthy options start log → Punctual options start log e))
    ⟨since_opened, fun _ => punctual_opened⟩
    (fun log t hI htake => ⟨hI.1.take (move_take hI.1.ne_disconnected htake), fun h =>
      (hI.2 h.of_append).take hI.1 h hping hvalid hfirst htake⟩) hrun
  rw [List.nil_append] at hs hp
  -- the log up to the tick is that of a healthy link
  have h : Healthy options start (earlier ++ [t]) := by
    rw [hrun, List.append_cons] at hhealthy
    exact hhealthy.of_prefix
  rw [hturn] at htake
  have htick : t.before.onTick t.now = (t.after, t.step) := Except.ok.inj htake
  have hstep : t.step = (t.before.onTick t.now).2 := by rw [htick]
  rcases hstate : t.before.state with _ | _ | _
  · exact hs.ne_disconnected hstate
  · rw [hstep] at hdrop
    exact (onTick_of_handshaking t.now hstate).2.1 hdrop
  · have hlt := (hp h.of_append).elapsed_lt h hping hvalid hfirst hturn hstate
    rw [← hs.options] at hlt
    rw [hstep, onTick_of_established hstate, if_neg (not_le.mpr hlt)] at hdrop
    split at hdrop <;> cases hdrop

/-- A handshake that cannot be in time is never completed on a healthy link, which is then
not dropped for silence. -/
theorem spares_of_handshakeTimeout_le (hnever : options.handshakeTimeout ≤ 0) :
    Spares options inbound := by
  intro start inputs hhealthy t ht hturn hdrop
  obtain ⟨earlier, later, hrun⟩ := List.append_of_mem ht
  have hopened : Since options inbound start [] (opened options inbound start).1 := since_opened
  obtain ⟨hs, htake⟩ := run_invariant hopened
    (fun log t hs htake => hs.take (move_take hs.ne_disconnected htake)) hrun
  rw [List.nil_append] at hs
  rw [hturn] at htake
  have htick : t.before.onTick t.now = (t.after, t.step) := Except.ok.inj htake
  rcases hstate : t.before.state with _ | _ | _
  · exact hs.ne_disconnected hstate
  · have hnot := (onTick_of_handshaking t.now hstate).2.1
    rw [htick] at hnot
    exact hnot hdrop
  · obtain ⟨s, hmem, hhears⟩ := stateAfter_eq_established.mp (hs.state.symm.trans hstate)
    -- the handshake completes with the first host that is heard
    obtain ⟨first, hfirst⟩ := Option.isSome_iff_exists.mp
      (List.find?_isSome.mpr ⟨s, hmem, hhears⟩)
    obtain ⟨hhost, before, after, rfl, hnone⟩ := List.find?_eq_some_iff_append.mp hfirst
    have hsplit : run (opened options inbound start).1 inputs =
        before ++ first :: (after ++ t :: later) := by
      rw [hrun]
      simp
    obtain ⟨hsince, hmove⟩ := since_run since_opened hsplit
    have hdone := (completed_iff hsince hmove).mpr ⟨hhost, fun u hu => by simpa using hnone u hu⟩
    have hprompt := hhealthy.prompt first (by rw [hsplit]; simp) hdone
    have hclock := (List.pairwise_cons.mp hhealthy.clock).1 first.now (by rw [hsplit]; simp)
    rw [elapsed] at hprompt
    omega

end Kept

/-! ### A link that is torn down -/

section Torn

variable {options : HostLinkOptions} {inbound : Bool}

/-- A moment of the calendar, by its ticks. -/
def moment (ticks : ℕ) : DateTimeOffset :=
  ⟨min ticks 3155378975999999999, min_le_right _ _⟩

/-- Ticks that do nothing. -/
theorem run_idle {e : HostLinkEngine} {nows : List DateTimeOffset}
    (hidle : ∀ now ∈ nows, e.onTick now = (e, EngineStep.none))
    (inputs : List (DateTimeOffset × Turn)) :
    run e (nows.map (·, Turn.tick) ++ inputs) =
      nows.map (fun now => ⟨now, .tick, e, e, EngineStep.none⟩) ++ run e inputs := by
  induction nows with
  | nil => rfl
  | cons now nows ih =>
    have htake : e.take now .tick = .ok (e, EngineStep.none) :=
      congrArg Except.ok (hidle now List.mem_cons_self)
    rw [List.map_cons, List.cons_append, run, htake]
    exact congrArg _ (ih fun now hnow => hidle now (List.mem_cons_of_mem _ hnow))

/-- The host line of a parent. -/
def exampleHost : Text := "/..HOST PARENT".toList

/-- A parent that announces itself at once establishes the link. -/
theorem take_exampleHost (options : HostLinkOptions) (inbound : Bool) (start : DateTimeOffset) :
    ∃ e step, (opened options inbound start).1.take start (.line exampleHost) = .ok (e, step) ∧
      e.state = .established ∧ e.options = options ∧ e.lastInbound = start ∧
        e.lastPingSent = start ∧ step.dropReason = none ∧
          HostCommand.hostPing ∉ step.outboundCommands := by
  have hs : Since options inbound start [] (opened options inbound start).1 := since_opened
  have hfield : timestampField exampleHost = none := by decide +kernel
  have hannounces : announces exampleHost = true := by decide +kernel
  obtain ⟨⟨e, step⟩, htake⟩ := (onLineReceived_isOk_iff start _ (Or.inl hs.state) exampleHost).mpr
    (by rw [hfield]; nofun)
  refine ⟨e, step, htake, ?_⟩
  cases move_line hs.ne_disconnected htake with
  | heard text hother he hplain => cases hannounces.symm.trans hother
  | again text hagain hstate he hplain hdrop => cases hs.state.symm.trans hstate
  | completed text hagain hstate he hstep =>
    rw [he, hstep]
    refine ⟨rfl, hs.options, rfl, hs.pinged, rfl, ?_⟩
    dsimp only
    split
    · intro hping
      cases List.mem_singleton.mp hping
    · exact List.not_mem_nil

/-- A connection whose parent announces itself at once and then says nothing. -/
def quietRun (step n : ℕ) : List (DateTimeOffset × Turn) :=
  (moment 0, .line exampleHost) ::
    ((List.range n).map fun i => moment ((i + 1) * step)).map (·, .tick)

/-- A tick of a quiet connection. -/
def quietTick (e : HostLinkEngine) (step n i : ℕ) : Taken :=
  ⟨moment ((i + 1) * step), .tick, e, e,
    { EngineStep.none with dropReason := if i = n then some silenceReason else none }⟩

theorem moment_ticks {ticks : ℕ} (hticks : (ticks : ℤ) ≤ HostLinkOptions.lastMoment) :
    (moment ticks).ticks = ticks :=
  min_eq_left (Int.ofNat_le.mp hticks)

/-- The ticks of a quiet connection do nothing until the last one, which drops it. -/
theorem run_quiet {e : HostLinkEngine} {step n : ℕ} (hstate : e.state = .established)
    (hheard : e.lastInbound = moment 0) (hpinged : e.lastPingSent = moment 0)
    (hlast : (((n + 1) * step : ℕ) : ℤ) ≤ HostLinkOptions.lastMoment)
    (hidle : (n : ℤ) * step < e.options.pingInterval)
    (hvalid : e.options.pingInterval < e.options.silenceTimeout)
    (hsilent : e.options.silenceTimeout ≤ ((n + 1) * step : ℕ)) :
    run e (((List.range (n + 1)).map fun i => moment ((i + 1) * step)).map (·, .tick)) =
      (List.range (n + 1)).map (quietTick e step n) := by
  have hzero : (moment 0).ticks = 0 := rfl
  have helapsed : ∀ i ≤ n, elapsed (moment 0) (moment ((i + 1) * step)) =
      (((i + 1) * step : ℕ) : ℤ) := by
    intro i hi
    have hle : (i + 1) * step ≤ (n + 1) * step := Nat.mul_le_mul_right _ (by omega)
    rw [elapsed, hzero, moment_ticks (by omega), Nat.cast_zero, sub_zero]
  have hquiet : ∀ now ∈ (List.range n).map (fun i => moment ((i + 1) * step)),
      e.onTick now = (e, EngineStep.none) := by
    intro now hnow
    obtain ⟨i, hi, rfl⟩ := List.mem_map.mp hnow
    have hi : i < n := List.mem_range.mp hi
    have hle : (i + 1) * step ≤ n * step := Nat.mul_le_mul_right _ hi
    have hlt : (((i + 1) * step : ℕ) : ℤ) < e.options.pingInterval := by
      push_cast at hle ⊢
      have : ((i : ℤ) + 1) * step ≤ n * step := by exact_mod_cast hle
      omega
    refine onTick_of_idle hstate ?_ ?_
    · rw [hheard, helapsed i hi.le]
      omega
    · rw [hpinged, helapsed i hi.le]
      exact hlt
  rw [List.range_succ, List.map_append, List.map_append, run_idle hquiet, List.map_append,
    List.map_map]
  congr 1
  · refine List.map_congr_left fun i hi => ?_
    have hne : i ≠ n := (List.mem_range.mp hi).ne
    simp [quietTick, hne, EngineStep.none]
  · have htake : e.take (moment ((n + 1) * step)) .tick =
        .ok (e, { EngineStep.none with dropReason := some silenceReason }) :=
      congrArg Except.ok (onTick_of_silent hstate (by
        rw [hheard, helapsed n le_rfl]
        exact hsilent))
    simp [run, htake, quietTick]

/-- The ticks of a quiet connection, in their order. -/
theorem eq_quietTick {e : HostLinkEngine} {step n m : ℕ} {earlier later : List Taken} {t : Taken}
    (hlog : (List.range m).map (quietTick e step n) = earlier ++ t :: later) :
    earlier.length < m ∧ t = quietTick e step n earlier.length ∧
      tickCount earlier = earlier.length := by
  have hlen : earlier.length < m := by
    have := congrArg List.length hlog
    simp only [List.length_map, List.length_range, List.length_append, List.length_cons] at this
    omega
  have hget : ((List.range m).map (quietTick e step n))[earlier.length]? = some t := by
    rw [hlog]
    simp
  rw [List.getElem?_map, List.getElem?_range hlen] at hget
  refine ⟨hlen, (Option.some.inj hget).symm, List.countP_eq_length.mpr fun s hs => ?_⟩
  have hmem : s ∈ (List.range m).map (quietTick e step n) := by
    rw [hlog]
    exact List.mem_append_left _ hs
  obtain ⟨i, -, rfl⟩ := List.mem_map.mp hmem
  rfl

/-- The clock of a quiet connection. -/
theorem now_quietTick (e : HostLinkEngine) (step n m : ℕ) :
    ((List.range m).map (quietTick e step n)).map Taken.now =
      (List.range m).map fun i => moment ((i + 1) * step) :=
  List.map_map

/-- It does not go back. -/
theorem pairwise_moment (step m : ℕ) :
    ((List.range m).map fun i => moment ((i + 1) * step)).Pairwise
      fun a b => a.ticks ≤ b.ticks := by
  rw [List.pairwise_map]
  refine List.pairwise_lt_range.imp fun {i j} hij => ?_
  exact min_le_min (Nat.mul_le_mul_right _ (by omega)) le_rfl

/-- **A quiet connection is healthy.** It is the run in which a ping that comes too late shows. -/
theorem healthy_quiet {options : HostLinkOptions} {first : Taken} {e : HostLinkEngine} {n : ℕ}
    (hnow : first.now = moment 0) (hturn : first.turn ≠ .tick) (hpings : first.pings = false)
    (hprompt : 0 < options.handshakeTimeout)
    (hlast : ((n + 1 : ℕ) : ℤ) * options.tickInterval ≤ HostLinkOptions.lastMoment) :
    Healthy options (moment 0)
      (first :: (List.range (n + 1)).map (quietTick e options.tickInterval.toNat n)) := by
  have hstep : (options.tickInterval.toNat : ℤ) = options.tickInterval :=
    Int.toNat_of_nonneg (tickInterval_pos options).le
  have hzero : (moment 0).ticks = 0 := rfl
  have hticks : ∀ i ≤ n, ((moment ((i + 1) * options.tickInterval.toNat)).ticks : ℤ) =
      (i + 1) * options.tickInterval := by
    intro i hi
    have hle : ((i + 1 : ℕ) : ℤ) * options.tickInterval ≤
        ((n + 1 : ℕ) : ℤ) * options.tickInterval :=
      Int.mul_le_mul_of_nonneg_right (by omega) (tickInterval_pos options).le
    rw [moment_ticks (by push_cast [hstep]; push_cast at hle hlast; omega)]
    push_cast [hstep]
    rfl
  have hnone : ∀ t ∈ first :: (List.range (n + 1)).map
      (quietTick e options.tickInterval.toNat n), t.pings = false := by
    rintro t (_ | ⟨_, ht⟩)
    · exact hpings
    · obtain ⟨i, -, rfl⟩ := List.mem_map.mp ht
      rfl
  refine ⟨?_, ?_, ?_, ?_⟩
  · rw [List.map_cons, now_quietTick, hnow]
    exact List.pairwise_cons.mpr ⟨fun _ _ => hzero ▸ Nat.zero_le _,
      List.pairwise_cons.mpr ⟨fun _ _ => hzero ▸ Nat.zero_le _, pairwise_moment _ _⟩⟩
  · intro earlier t later hlog ht
    rcases earlier with _ | ⟨first', earlier⟩
    · exact absurd ht ((List.cons.inj hlog).1 ▸ hturn)
    · -- the host line comes first, and then nothing but ticks
      obtain ⟨rfl, hticked⟩ := List.cons.inj (hlog.trans List.cons_append)
      obtain ⟨hlen, rfl, hall⟩ := eq_quietTick hticked
      have hcount : tickCount (first :: earlier) = earlier.length := by
        rw [tickCount, List.countP_cons_of_neg (by simpa using hturn)]
        exact hall
      rw [hcount, hzero]
      exact (hticks _ (by omega)).trans (zero_add _).symm
  · rintro t (_ | ⟨_, ht⟩) hdone
    · rw [elapsed, hnow, hzero]
      exact hprompt
    · obtain ⟨i, -, rfl⟩ := List.mem_map.mp ht
      cases hdone
  · intro earlier t middle next later hlog ht
    rw [hnone t (by rw [hlog]; simp)] at ht
    cases ht

/-- **A link whose `PING` is due too late is not spared**: a parent that announces itself at
once and then says nothing is not asked before it is dropped. -/
theorem not_spares (hping : 0 < options.pingInterval)
    (hvalid : options.pingInterval < options.silenceTimeout) (hlate : ¬ options.PingsInTime) :
    ¬ Spares options inbound := by
  intro hspares
  obtain ⟨hprompt, hlate⟩ := not_or.mp hlate
  obtain ⟨hdue, hcalendar⟩ := not_or.mp hlate
  have hpos := tickInterval_pos options
  have hstep : (options.tickInterval.toNat : ℤ) = options.tickInterval :=
    Int.toNat_of_nonneg hpos.le
  -- the `PING` is due at the tick after the `n`th
  obtain ⟨n, hn⟩ : ∃ n : ℕ, options.pingDue = ((n + 1 : ℕ) : ℤ) * options.tickInterval := by
    have hone : 1 ≤ (options.pingInterval + options.tickInterval - 1) / options.tickInterval :=
      (Int.le_ediv_iff_mul_le hpos).mpr (by omega)
    refine ⟨((options.pingInterval + options.tickInterval - 1) /
      options.tickInterval - 1).toNat, ?_⟩
    rw [HostLinkOptions.pingDue]
    congr 1
    push_cast
    rw [Int.toNat_of_nonneg (by omega)]
    ring
  have hbefore : (n : ℤ) * options.tickInterval < options.pingInterval := by
    have hceil : options.pingDue ≤ options.pingInterval + options.tickInterval - 1 :=
      Int.ediv_mul_le _ hpos.ne'
    rw [hn] at hceil
    push_cast at hceil
    rw [add_mul, one_mul] at hceil
    omega
  obtain ⟨e, step, htake, hstate, hoptions, hinbound, hpinged, hdrop, hplain⟩ :=
    take_exampleHost options inbound (moment 0)
  have hrun : run (opened options inbound (moment 0)).1
      (quietRun options.tickInterval.toNat (n + 1)) =
        ⟨moment 0, .line exampleHost, (opened options inbound (moment 0)).1, e, step⟩ ::
          (List.range (n + 1)).map (quietTick e options.tickInterval.toNat n) := by
    rw [quietRun, run, htake]
    dsimp only
    rw [if_neg (by simp [hdrop]), run_quiet hstate hinbound hpinged]
    · push_cast [hstep]
      push_cast at hn
      omega
    · rw [hoptions, hstep]
      exact hbefore
    · rw [hoptions]
      exact hvalid
    · rw [hoptions]
      push_cast [hstep]
      push_cast at hn
      omega
  -- that tick finds the link silent for too long, and drops it
  refine hspares (moment 0) (quietRun options.tickInterval.toNat (n + 1)) ?_
    (quietTick e options.tickInterval.toNat n n) ?_ rfl ?_
  · rw [hrun]
    refine healthy_quiet rfl (by rintro ⟨⟩) ?_ (not_le.mp hprompt) ?_
    · exact decide_eq_false hplain
    · rw [← hn]
      exact not_lt.mp hcalendar
  · rw [hrun]
    exact List.mem_cons_of_mem _ (List.mem_map.mpr ⟨n, List.mem_range.mpr (by omega), rfl⟩)
  · simp [quietTick]

end Torn

/-- **A healthy link is never torn down for silence** exactly when its `PING`, on the grid, is due
before the silence timeout. Valid options do not promise it, as they compare the timeout with the
interval before it is rounded. -/
theorem spares_iff {given options : HostLinkOptions} {initialBackoff maxBackoff : ℤ}
    (inbound : Bool) (hvalid : given.validate initialBackoff maxBackoff = .ok options)
    (hping : 0 < options.pingInterval) : Spares options inbound ↔ options.PingsInTime := by
  have hlt : options.pingInterval < options.silenceTimeout := by
    exact (HostLinkOptions.valid_of_validate hvalid).1.2.2.2.1
  constructor
  · intro hspares
    by_contra hlate
    exact not_spares hping hlt hlate hspares
  · rintro (hnever | hfirst)
    · exact spares_of_handshakeTimeout_le hnever
    · exact spares_of_pingsFirst hping hlt hfirst

/-- The default times are in time. -/
theorem spares_exampleOptions :
    ∃ options, (HostLinkOptions.ofHostName "PARENT".toList).validate 10000000 600000000 =
        .ok options ∧ 0 < options.pingInterval ∧
      (Spares options false ↔ options.PingsInTime) ∧ options.PingsInTime := by
  have hvalid : (HostLinkOptions.ofHostName "PARENT".toList).validate 10000000 600000000 =
      .ok (HostLinkOptions.ofHostName "PARENT".toList) := rfl
  have hping : 0 < (HostLinkOptions.ofHostName "PARENT".toList).pingInterval := by decide
  exact ⟨_, hvalid, hping, spares_iff false hvalid hping, by decide⟩

/-- A link pinged every 60 ms, which may be silent for 80 ms: it is looked at every 50 ms. -/
def hastyOptions : HostLinkOptions :=
  { HostLinkOptions.ofHostName "PARENT".toList with
    pingInterval := 600000
    silenceTimeout := 800000 }

/-- **A healthy link that is torn down for silence.** The first tick at which the ping is due finds
the link silent. -/
theorem not_spares_hastyOptions :
    ¬ ∀ (given options : HostLinkOptions) (initialBackoff maxBackoff : ℤ),
      given.validate initialBackoff maxBackoff = .ok options → 0 < options.pingInterval →
        ∀ inbound, Spares options inbound := by
  intro h
  have hping : 0 < hastyOptions.pingInterval := by decide
  exact not_spares hping (by decide) (by decide)
    (h hastyOptions hastyOptions 10000000 600000000 rfl hping false)

end HostLinkEngine

end Convers
