import Convers.Host.HostLink

/-!
# The discipline of the engine

A connection begins with `OnConnected` or `OnAccepted`, and then the engine takes lines
and ticks until a step asks to drop the link. What it answers over such a run
(`Convers.HostLinkEngine.run`) is determined by what it has taken before: the state of
the engine at any step is a function of the log of the steps before it
(`Convers.HostLinkEngine.Since`), so the handshake completes on the first announcement
and only there, our own announcement goes out once, pings keep their distance, and the
link is dropped on a second announcement, a stalled handshake and silence.

Silence is looked at on an established link only: a handshake may be silent for longer
than `SilenceTimeout` when `HandshakeTimeout` is longer than that.
-/

namespace Convers

/-- A `HOST` line. -/
def HostCommand.isHandshake : HostCommand → Bool
  | .hostHandshake .. => true
  | _ => false

/-- Whether `HostLinkOptions.Validate` accepts the options as they are. The two backoffs are
fields of the record that no link reads. -/
def HostLinkOptions.Valid (options : HostLinkOptions) (initialBackoff maxBackoff : ℤ) : Prop :=
  trim options.hostName = options.hostName ∧ options.hostName ≠ [] ∧
    options.hostName.length ≤ 9 ∧ options.pingInterval < options.silenceTimeout ∧
      0 < initialBackoff ∧ initialBackoff ≤ maxBackoff

instance (options : HostLinkOptions) (initialBackoff maxBackoff : ℤ) :
    Decidable (options.Valid initialBackoff maxBackoff) :=
  inferInstanceAs (Decidable (_ ∧ _ ∧ _ ∧ _ ∧ _ ∧ _))

namespace HostLinkEngine

/-! ### Runs -/

/-- A call of the engine. -/
inductive Turn where
  /-- `OnLineReceived`. -/
  | line (text : Text)
  /-- `OnTick`. -/
  | tick
  deriving DecidableEq

/-- Whether a line is an announcement of a host. -/
def announces (line : Text) : Bool :=
  ((HostCommandCodec.stripPrefix line).map HostCommandCodec.parseBody).any HostCommand.isHandshake

/-- The engine takes a turn. -/
def take (now : DateTimeOffset) (e : HostLinkEngine) :
    Turn → Except Fault (HostLinkEngine × EngineStep)
  | .line text => e.onLineReceived now text
  | .tick => .ok (e.onTick now)

/-- One step of a run. -/
structure Taken where
  now : DateTimeOffset
  turn : Turn
  before : HostLinkEngine
  after : HostLinkEngine
  step : EngineStep
  deriving DecidableEq

namespace Taken

variable (t : Taken)

/-- The step takes a `HOST` line. -/
def hearsHost : Bool :=
  match t.turn with
  | .line text => announces text
  | .tick => false

/-- The step takes a line. -/
def hears : Bool :=
  match t.turn with
  | .line _ => true
  | .tick => false

/-- The step sends a `PING`. -/
def pings : Bool := HostCommand.hostPing ∈ t.step.outboundCommands

end Taken

/-- **The steps of a run**, up to the first that asks to drop the link. A line whose
timestamp is out of range ends the run too. -/
def run : HostLinkEngine → List (DateTimeOffset × Turn) → List Taken
  | _, [] => []
  | e, (now, turn) :: inputs =>
    match e.take now turn with
    | .error _ => []
    | .ok (after, step) =>
      ⟨now, turn, e, after, step⟩ :: if step.dropReason.isSome then [] else run after inputs

/-- The connection begins: we have dialled, or a peer has. -/
def opened (options : HostLinkOptions) (inbound : Bool) (now : DateTimeOffset) :
    HostLinkEngine × EngineStep :=
  if inbound then (new options inbound).onAccepted now else (new options inbound).onConnected now

/-- The time from a moment to a later one. -/
def elapsed (t now : DateTimeOffset) : ℤ := (now.ticks : ℤ) - t.ticks

/-- The last moment at which something happened, from some start. -/
def latest (p : Taken → Bool) (start : DateTimeOffset) (log : List Taken) : DateTimeOffset :=
  log.foldl (fun t s => if p s then s.now else t) start

theorem latest_append (p : Taken → Bool) (start : DateTimeOffset) (log : List Taken) (t : Taken) :
    latest p start (log ++ [t]) = if p t then t.now else latest p start log := by
  rw [latest, List.foldl_append]
  rfl

/-- On a clock that does not go back, nothing happened after the last moment at which it
did. -/
theorem le_latest {p : Taken → Bool} {start : DateTimeOffset} {log : List Taken}
    (hclock : (start :: log.map Taken.now).Pairwise fun a b => a.ticks ≤ b.ticks) :
    start.ticks ≤ (latest p start log).ticks ∧
      ∀ s ∈ log, p s = true → s.now.ticks ≤ (latest p start log).ticks := by
  induction log using List.reverseRecOn with
  | nil => exact ⟨le_refl _, by simp⟩
  | append_singleton log t ih =>
    rw [List.map_append, ← List.cons_append, List.pairwise_append] at hclock
    obtain ⟨hbefore, -, hlast⟩ := hclock
    have hle : ∀ a ∈ start :: log.map Taken.now, a.ticks ≤ t.now.ticks := fun a ha =>
      hlast a ha t.now (by simp)
    obtain ⟨hstart, hall⟩ := ih hbefore
    rw [latest_append]
    split
    · refine ⟨hle start (by simp), fun s hs _ => ?_⟩
      rcases List.mem_append.mp hs with hs | hs
      · exact hle s.now (List.mem_cons_of_mem _ (List.mem_map_of_mem hs))
      · rw [List.mem_singleton.mp hs]
    · rename_i hnot
      refine ⟨hstart, fun s hs hp => ?_⟩
      rcases List.mem_append.mp hs with hs | hs
      · exact hall s hs hp
      · rw [List.mem_singleton.mp hs] at hp
        exact absurd hp hnot

/-! ### One step -/

/-- The step says nothing that has to do with the state of the link. -/
structure Plain (step : EngineStep) : Prop where
  completed : step.handshakeCompleted = false
  handshake : ∀ c ∈ step.outboundCommands, c.isHandshake = false
  ping : HostCommand.hostPing ∉ step.outboundCommands

/-- A step with no commands, that does not complete the handshake. -/
theorem Plain.of_silent {step : EngineStep} (hcompleted : step.handshakeCompleted = false)
    (hsilent : step.outboundCommands = []) : Plain step := by
  constructor
  · exact hcompleted
  · rw [hsilent]
    nofun
  · rw [hsilent]
    exact List.not_mem_nil

/-- **What a turn can do**: nothing but hear, complete the handshake, drop the link for one
of three reasons, or ping. -/
inductive Move (now : DateTimeOffset) (e e' : HostLinkEngine) (step : EngineStep) : Turn → Prop
  | heard (text : Text) (hother : announces text = false)
      (he : e' = { e with lastInbound := now, lastRoundTripMs := e'.lastRoundTripMs })
      (hplain : Plain step) : Move now e e' step (.line text)
  | completed (text : Text) (hannounces : announces text = true) (hstate : e.state = .handshaking)
      (he : e' = { e with
        lastInbound := now, negotiatedFacilities := e'.negotiatedFacilities,
        peerHostName := e'.peerHostName, state := .established })
      (hstep : step = { EngineStep.none with
        outboundCommands := if e.inbound then [e.handshake] else [],
        handshakeCompleted := true, negotiatedFacilities := e'.negotiatedFacilities }) :
      Move now e e' step (.line text)
  | again (text : Text) (hannounces : announces text = true) (hstate : e.state = .established)
      (he : e' = { e with lastInbound := now }) (hplain : Plain step)
      (hdrop : step.dropReason.isSome = true) : Move now e e' step (.line text)
  | stalled (hstate : e.state = .handshaking) (he : e' = e) (hplain : Plain step)
      (hdrop : step.dropReason.isSome = true) : Move now e e' step .tick
  | silent (hstate : e.state = .established) (he : e' = e) (hplain : Plain step)
      (hdrop : step.dropReason.isSome = true) : Move now e e' step .tick
  | pinged (hstate : e.state = .established)
      (hheard : elapsed e.lastInbound now < e.options.silenceTimeout)
      (hdue : e.options.pingInterval ≤ elapsed e.lastPingSent now)
      (he : e' = { e with lastPingSent := now, lastPingRoundTripAt := now })
      (hstep : step = { EngineStep.none with outboundCommands := [.hostPing] }) :
      Move now e e' step .tick
  | idle (hfresh : e.state = .handshaking →
        elapsed e.handshakeSentAt now < e.options.handshakeTimeout)
      (hheard : e.state = .established → elapsed e.lastInbound now < e.options.silenceTimeout)
      (he : e' = e) (hstep : step = EngineStep.none) : Move now e e' step .tick

/-- The link layer answers with messages. -/
theorem mem_sysInfoReplies (e : HostLinkEngine) (user host : Text) :
    ∀ c ∈ e.sysInfoReplies user host, ∃ toUser text,
      c = .hostUserMessage systemSender toUser text := by
  intro c hc
  unfold sysInfoReplies at hc
  split at hc
  · rcases List.mem_cons.mp hc with rfl | hc
    · exact ⟨_, _, rfl⟩
    · split at hc
      · rw [List.mem_singleton] at hc
        exact ⟨_, _, hc⟩
      · cases hc
  · cases hc

/-- What a line does. -/
theorem move_line {now : DateTimeOffset} {e e' : HostLinkEngine} {step : EngineStep} {text : Text}
    (hopen : e.state ≠ .disconnected) (h : e.onLineReceived now text = .ok (e', step)) :
    Move now e e' step (.line text) := by
  obtain ⟨e₁, he₁⟩ : ∃ e₁, e₁ = { e with lastInbound := now } := ⟨_, rfl⟩
  -- a command that goes to the bridge, in either state
  have hbridge : ∀ {c : HostCommand}, announces text = false →
      (HostBridge.toEvent c >>= fun event =>
        Except.ok (e₁, { EngineStep.none with hubEvents := event.toList })) = .ok (e', step) →
      Move now e e' step (.line text) := by
    intro c hother hok
    obtain ⟨he, hstep, -⟩ := of_bridge hok
    rw [hstep, he, he₁]
    exact .heard text hother rfl (Plain.of_silent rfl rfl)
  rw [onLineReceived_eq, ← he₁] at h
  rcases hparsed : (HostCommandCodec.stripPrefix text).map HostCommandCodec.parseBody with _ | c
  · rw [hparsed] at h
    cases h
    refine .heard text ?_ (by rw [he₁]) (Plain.of_silent rfl rfl)
    rw [announces, hparsed, Option.any_none]
  · have hannounces : announces text = c.isHandshake := by
      rw [announces, hparsed, Option.any_some]
    rw [hparsed] at h
    rcases hstate : e.state with _ | _ | _
    · exact absurd hstate hopen
    · simp only [hstate] at h
      cases c with
      | hostHandshake hostname software facilities =>
        cases h
        refine .completed text hannounces hstate ?_ ?_
        · rw [he₁]
        · rw [he₁]
          rfl
      | _ => exact hbridge hannounces h
    · simp only [hstate] at h
      cases c with
      | hostHandshake hostname software facilities =>
        cases h
        exact .again text hannounces hstate he₁ (Plain.of_silent rfl rfl) rfl
      | hostPong time =>
        cases h
        refine .heard text hannounces ?_ (Plain.of_silent rfl rfl)
        rw [he₁]
        rfl
      | hostLoop detail =>
        cases h
        exact .heard text hannounces (by rw [he₁]) (Plain.of_silent rfl rfl)
      | hostRoute dest user ttl =>
        cases h
        refine .heard text hannounces (by rw [he₁]) ⟨rfl, ?_, ?_⟩
        · intro c hc
          rw [List.mem_singleton.mp hc]
          rfl
        · intro hping
          cases List.mem_singleton.mp hping
      | hostSysInfo user host =>
        cases h
        have hreplies := mem_sysInfoReplies e' user host
        refine .heard text hannounces (by rw [he₁]) ⟨rfl, ?_, ?_⟩
        · intro c hc
          obtain ⟨toUser, reply, rfl⟩ := hreplies c hc
          rfl
        · intro hping
          obtain ⟨toUser, reply, heq⟩ := hreplies _ hping
          cases heq
      | _ => exact hbridge hannounces h

/-- What a tick does. -/
theorem move_tick (now : DateTimeOffset) (e : HostLinkEngine) :
    Move now e (e.onTick now).1 (e.onTick now).2 .tick := by
  unfold onTick
  dsimp only
  split
  · rename_i hstalled
    exact .stalled hstalled.1 rfl (Plain.of_silent rfl rfl) rfl
  · rename_i hfresh
    have hfresh : e.state = .handshaking →
        elapsed e.handshakeSentAt now < e.options.handshakeTimeout := fun hstate =>
      not_le.mp fun hle => hfresh ⟨hstate, hle⟩
    split
    · rename_i hstate
      exact .idle hfresh (fun hest => absurd hest hstate) rfl rfl
    · rename_i hstate
      have hstate := not_not.mp hstate
      split
      · exact .silent hstate rfl (Plain.of_silent rfl rfl) rfl
      · rename_i hheard
        have hheard : elapsed e.lastInbound now < e.options.silenceTimeout := not_le.mp hheard
        split
        · rename_i hdue
          exact .pinged hstate hheard hdue rfl rfl
        · exact .idle hfresh (fun _ => hheard) rfl rfl

/-- **What a turn does**, as one of the moves. Every part of the discipline is a case analysis on
it. -/
theorem move_take {now : DateTimeOffset} {e e' : HostLinkEngine} {step : EngineStep} {turn : Turn}
    (hopen : e.state ≠ .disconnected) (h : e.take now turn = .ok (e', step)) :
    Move now e e' step turn := by
  cases turn with
  | line text => exact move_line hopen h
  | tick =>
    have hmove := move_tick now e
    have hanswer : e.onTick now = (e', step) := Except.ok.inj h
    rw [hanswer] at hmove
    exact hmove

/-! ### What the log says -/

/-- The state after some steps. -/
def stateAfter (log : List Taken) : HostLinkState :=
  if log.any Taken.hearsHost then .established else .handshaking

theorem stateAfter_append (log : List Taken) (t : Taken) :
    stateAfter (log ++ [t]) = if t.hearsHost then .established else stateAfter log := by
  rw [stateAfter, stateAfter, List.any_append]
  rcases t.hearsHost.eq_false_or_eq_true with hhears | hhears <;> simp [hhears]

theorem stateAfter_eq_established {log : List Taken} :
    stateAfter log = .established ↔ ∃ s ∈ log, s.hearsHost = true := by
  rw [stateAfter, ← List.any_eq_true]
  split <;> simp_all

theorem stateAfter_eq_handshaking {log : List Taken} :
    stateAfter log = .handshaking ↔ ∀ s ∈ log, s.hearsHost = false := by
  rw [stateAfter]
  split <;> simp_all

/-- **The state of the engine is a function of the log**, and so are its timers. -/
structure Since (options : HostLinkOptions) (inbound : Bool) (start : DateTimeOffset)
    (log : List Taken) (e : HostLinkEngine) : Prop where
  options : e.options = options
  role : e.inbound = inbound
  begun : e.handshakeSentAt = start
  state : e.state = stateAfter log
  heard : e.lastInbound = latest Taken.hears start log
  pinged : e.lastPingSent = latest Taken.pings start log

variable {options : HostLinkOptions} {inbound : Bool} {start : DateTimeOffset}
  {log : List Taken} {e : HostLinkEngine}

/-- A connection that begins has an empty log. -/
theorem since_opened : Since options inbound start [] (opened options inbound start).1 := by
  cases inbound with
  | false => exact ⟨rfl, rfl, rfl, rfl, rfl, rfl⟩
  | true => exact ⟨rfl, rfl, rfl, rfl, rfl, rfl⟩

namespace Since

theorem ne_disconnected (hs : Since options inbound start log e) : e.state ≠ .disconnected := by
  rw [hs.state, stateAfter]
  split <;> nofun

/-- A step that keeps the log up to date. -/
theorem append {t : Taken} (hs : Since options inbound start log t.before)
    (hoptions : t.after.options = t.before.options) (hrole : t.after.inbound = t.before.inbound)
    (hbegun : t.after.handshakeSentAt = t.before.handshakeSentAt)
    (hstate : t.after.state = if t.hearsHost then .established else t.before.state)
    (hheard : t.after.lastInbound = if t.hears then t.now else t.before.lastInbound)
    (hpinged : t.after.lastPingSent = if t.pings then t.now else t.before.lastPingSent) :
    Since options inbound start (log ++ [t]) t.after := by
  constructor
  · exact hoptions.trans hs.options
  · exact hrole.trans hs.role
  · exact hbegun.trans hs.begun
  · rw [hstate, stateAfter_append, hs.state]
  · rw [hheard, latest_append, hs.heard]
  · rw [hpinged, latest_append, hs.pinged]

/-- **Every step is added to the log.** -/
theorem take {t : Taken} (hs : Since options inbound start log t.before)
    (hmove : Move t.now t.before t.after t.step t.turn) :
    Since options inbound start (log ++ [t]) t.after := by
  -- a plain answer sends nothing, so no ping
  have hquiet (hplain : Plain t.step) : ¬t.pings = true := fun hping =>
    hplain.ping (of_decide_eq_true hping)
  obtain ⟨now, turn, before, after, step⟩ := t
  dsimp only at hs hmove hquiet
  cases hmove with
  | heard text hother he hplain =>
    refine hs.append (congrArg HostLinkEngine.options he :)
      (congrArg HostLinkEngine.inbound he :) (congrArg handshakeSentAt he :) ?_ ?_ ?_
    · exact (congrArg HostLinkEngine.state he).trans (if_neg (ne_true_of_eq_false hother)).symm
    · exact (congrArg lastInbound he).trans (if_pos rfl).symm
    · exact (congrArg lastPingSent he).trans (if_neg (hquiet hplain)).symm
  | completed text hannounces hstate he hstep =>
    -- it is the announcement that is sent, if anything is
    have hsent : ¬Taken.pings ⟨now, .line text, before, after, step⟩ = true := by
      intro hping
      have hping := of_decide_eq_true hping
      rw [hstep] at hping
      dsimp only at hping
      split at hping
      · cases List.mem_singleton.mp hping
      · cases hping
    refine hs.append (congrArg HostLinkEngine.options he :)
      (congrArg HostLinkEngine.inbound he :) (congrArg handshakeSentAt he :) ?_ ?_ ?_
    · exact (congrArg HostLinkEngine.state he).trans (if_pos hannounces).symm
    · exact (congrArg lastInbound he).trans (if_pos rfl).symm
    · exact (congrArg lastPingSent he).trans (if_neg hsent).symm
  | again text hannounces hstate he hplain hdrop =>
    refine hs.append (congrArg HostLinkEngine.options he :)
      (congrArg HostLinkEngine.inbound he :) (congrArg handshakeSentAt he :) ?_ ?_ ?_
    · exact (congrArg HostLinkEngine.state he).trans (hstate.trans (if_pos hannounces).symm)
    · exact (congrArg lastInbound he).trans (if_pos rfl).symm
    · exact (congrArg lastPingSent he).trans (if_neg (hquiet hplain)).symm
  | stalled hstate he hplain hdrop =>
    refine hs.append (congrArg HostLinkEngine.options he :)
      (congrArg HostLinkEngine.inbound he :) (congrArg handshakeSentAt he :) ?_ ?_ ?_
    · exact (congrArg HostLinkEngine.state he).trans (if_neg Bool.false_ne_true).symm
    · exact (congrArg lastInbound he).trans (if_neg Bool.false_ne_true).symm
    · exact (congrArg lastPingSent he).trans (if_neg (hquiet hplain)).symm
  | silent hstate he hplain hdrop =>
    refine hs.append (congrArg HostLinkEngine.options he :)
      (congrArg HostLinkEngine.inbound he :) (congrArg handshakeSentAt he :) ?_ ?_ ?_
    · exact (congrArg HostLinkEngine.state he).trans (if_neg Bool.false_ne_true).symm
    · exact (congrArg lastInbound he).trans (if_neg Bool.false_ne_true).symm
    · exact (congrArg lastPingSent he).trans (if_neg (hquiet hplain)).symm
  | pinged hstate hheard hdue he hstep =>
    -- the one case that moves the time of the last ping
    have hsent : Taken.pings ⟨now, .tick, before, after, step⟩ = true := by
      refine decide_eq_true ?_
      rw [hstep]
      exact List.mem_singleton_self _
    refine hs.append (congrArg HostLinkEngine.options he :)
      (congrArg HostLinkEngine.inbound he :) (congrArg handshakeSentAt he :) ?_ ?_ ?_
    · exact (congrArg HostLinkEngine.state he).trans (if_neg Bool.false_ne_true).symm
    · exact (congrArg lastInbound he).trans (if_neg Bool.false_ne_true).symm
    · exact (congrArg lastPingSent he).trans (if_pos hsent).symm
  | idle hfresh hheard he hstep =>
    have hsent : ¬Taken.pings ⟨now, .tick, before, after, step⟩ = true := by
      intro hping
      have hping := of_decide_eq_true hping
      rw [hstep] at hping
      cases hping
    refine hs.append (congrArg HostLinkEngine.options he :)
      (congrArg HostLinkEngine.inbound he :) (congrArg handshakeSentAt he :) ?_ ?_ ?_
    · exact (congrArg HostLinkEngine.state he).trans (if_neg Bool.false_ne_true).symm
    · exact (congrArg lastInbound he).trans (if_neg Bool.false_ne_true).symm
    · exact (congrArg lastPingSent he).trans (if_neg hsent).symm

end Since

/-- **The induction on a connection**: what every step keeps, with the steps before it as the log,
holds at each step of a run. It is the general one, with the log as a part of the state. -/
theorem run_invariant {I : List Taken → HostLinkEngine → Prop}
    {inputs : List (DateTimeOffset × Turn)}
    (hI : I log e)
    (hstep : ∀ log (t : Taken), I log t.before →
      t.before.take t.now t.turn = .ok (t.after, t.step) → I (log ++ [t]) t.after)
    {earlier later : List Taken} {t : Taken} (hrun : run e inputs = earlier ++ t :: later) :
    I (log ++ earlier) t.before ∧ t.before.take t.now t.turn = .ok (t.after, t.step) := by
  induction inputs generalizing e log earlier with
  | nil => exact absurd hrun (by simp [run])
  | cons input inputs ih =>
    obtain ⟨now, turn⟩ := input
    unfold run at hrun
    split at hrun
    · exact absurd hrun (by simp)
    · rename_i after step htake
      cases earlier with
      | nil =>
        obtain ⟨rfl, -⟩ := List.cons.inj hrun
        rw [List.append_nil]
        exact ⟨hI, htake⟩
      | cons first earlier =>
        obtain ⟨rfl, hrest⟩ := List.cons.inj hrun
        split at hrest
        · exact absurd hrest (by simp)
        · have hnext := ih (hstep log ⟨now, turn, e, after, step⟩ hI htake) hrest
          rw [List.append_assoc, List.singleton_append] at hnext
          exact hnext

/-- What holds at a step of a run: the log of the steps before it says where the engine is,
and the step is one of the moves. -/
theorem since_run {inputs : List (DateTimeOffset × Turn)}
    (hs : Since options inbound start log e) {earlier later : List Taken} {t : Taken}
    (hrun : run e inputs = earlier ++ t :: later) :
    Since options inbound start (log ++ earlier) t.before ∧
      Move t.now t.before t.after t.step t.turn := by
  obtain ⟨hsince, htake⟩ := run_invariant hs
    (fun log t hs htake => hs.take (move_take hs.ne_disconnected htake)) hrun
  exact ⟨hsince, move_take hsince.ne_disconnected htake⟩

/-- The steps of a run take the inputs in their order. -/
theorem now_run_prefix (e : HostLinkEngine) (inputs : List (DateTimeOffset × Turn)) :
    (run e inputs).map Taken.now <+: inputs.map Prod.fst := by
  induction inputs generalizing e with
  | nil => exact List.prefix_rfl
  | cons input inputs ih =>
    obtain ⟨now, turn⟩ := input
    unfold run
    split
    · exact List.nil_prefix
    · rename_i after step htake
      rw [List.map_cons, List.map_cons, List.prefix_cons_inj]
      split
      · exact List.nil_prefix
      · exact ih after

/-! ### The discipline -/

/-- **The discipline of a connection** that begins with some step at `start` and goes on
with the steps of the log. Every clause is about a step and the steps before it. -/
structure Conducts (options : HostLinkOptions) (inbound : Bool) (start : DateTimeOffset)
    (opening : EngineStep) (log : List Taken) : Prop where
  /-- The handshake completes in the step that receives the first `HOST`. -/
  completes : ∀ earlier t later, log = earlier ++ t :: later →
    (t.step.handshakeCompleted = true ↔
      t.hearsHost = true ∧ ∀ s ∈ earlier, s.hearsHost = false)
  /-- It completes once. -/
  once : ∀ earlier t later, log = earlier ++ t :: later → t.step.handshakeCompleted = true →
    ∀ s ∈ earlier ++ later, s.step.handshakeCompleted = false
  /-- Our own `HOST` is sent when we connect, or else when the handshake completes. -/
  announced : opening.outboundCommands.filter HostCommand.isHandshake =
      (if inbound then [] else
        [.hostHandshake options.hostName options.software options.facilities]) ∧
    ∀ t ∈ log, t.step.outboundCommands.filter HostCommand.isHandshake =
      if inbound ∧ t.step.handshakeCompleted then
        [.hostHandshake options.hostName options.software options.facilities]
      else []
  /-- A run that completes the handshake sends it once. -/
  announcedOnce : (∃ t ∈ log, t.step.handshakeCompleted = true) →
    (opening.outboundCommands ++ log.flatMap (·.step.outboundCommands)).filter
        HostCommand.isHandshake =
      [.hostHandshake options.hostName options.software options.facilities]
  /-- A ping is sent on an established link, alone. -/
  pings : ∀ t ∈ log, t.pings = true →
    t.before.state = .established ∧ t.step.outboundCommands = [.hostPing]
  /-- Pings keep their distance. -/
  spaced : ∀ earlier t later, log = earlier ++ t :: later → t.pings = true →
    options.pingInterval ≤ elapsed start t.now ∧
      ∀ s ∈ earlier, s.pings = true → options.pingInterval ≤ elapsed s.now t.now
  /-- An established link stays so. -/
  stays : ∀ earlier t later, log = earlier ++ t :: later →
    (t.before.state = .established ∨ ∃ s ∈ earlier, s.after.state = .established) →
      t.before.state = .established ∧ t.after.state = .established
  /-- A second `HOST` drops the link. -/
  dropsSecond : ∀ earlier t later, log = earlier ++ t :: later → t.hearsHost = true →
    (∃ s ∈ earlier, s.hearsHost = true) → t.step.dropReason.isSome = true
  /-- A stalled handshake drops the link. -/
  dropsStalled : ∀ earlier t later, log = earlier ++ t :: later → t.turn = .tick →
    (∀ s ∈ earlier, s.hearsHost = false) → options.handshakeTimeout ≤ elapsed start t.now →
      t.step.dropReason.isSome = true
  /-- Silence drops an established link, and a handshake that is to be no longer. -/
  dropsSilent : ∀ earlier t later, log = earlier ++ t :: later → t.turn = .tick →
    options.silenceTimeout ≤ elapsed (latest Taken.hears start earlier) t.now →
      t.before.state = .established ∨ options.handshakeTimeout ≤ options.silenceTimeout →
        t.step.dropReason.isSome = true

/-- The handshake completes where the first host is heard. -/
theorem completed_iff {t : Taken} (hs : Since options inbound start log t.before)
    (hmove : Move t.now t.before t.after t.step t.turn) :
    t.step.handshakeCompleted = true ↔
      t.hearsHost = true ∧ ∀ s ∈ log, s.hearsHost = false := by
  have hplain (hplain : Plain t.step) : ¬t.step.handshakeCompleted = true := fun hc =>
    Bool.false_ne_true (hplain.completed.symm.trans hc)
  rw [← stateAfter_eq_handshaking, ← hs.state]
  obtain ⟨now, turn, before, after, step⟩ := t
  dsimp only at hs hmove hplain ⊢
  cases hmove with
  | heard text hother he hquiet =>
    refine iff_of_false (hplain hquiet) ?_
    rintro ⟨hhears, -⟩
    exact Bool.false_ne_true (hother.symm.trans hhears)
  | completed text hannounces hstate he hstep =>
    rw [hstep]
    exact iff_of_true rfl ⟨hannounces, hstate⟩
  | again text hannounces hstate he hquiet hdrop =>
    refine iff_of_false (hplain hquiet) ?_
    rintro ⟨-, hhandshaking⟩
    cases hstate.symm.trans hhandshaking
  | stalled hstate he hquiet hdrop | silent hstate he hquiet hdrop =>
    exact iff_of_false (hplain hquiet) fun hhears => Bool.false_ne_true hhears.1
  | pinged hstate hheard hdue he hstep =>
    rw [hstep]
    exact iff_of_false Bool.false_ne_true fun hhears => Bool.false_ne_true hhears.1
  | idle hfresh hheard he hstep =>
    rw [hstep]
    exact iff_of_false Bool.false_ne_true fun hhears => Bool.false_ne_true hhears.1

/-- What a step announces. -/
theorem announced_of_move {t : Taken} (hs : Since options inbound start log t.before)
    (hmove : Move t.now t.before t.after t.step t.turn) :
    t.step.outboundCommands.filter HostCommand.isHandshake =
      if inbound ∧ t.step.handshakeCompleted then
        [.hostHandshake options.hostName options.software options.facilities]
      else [] := by
  have hplain (hplain : Plain t.step) : t.step.outboundCommands.filter HostCommand.isHandshake =
      if inbound ∧ t.step.handshakeCompleted then
        [.hostHandshake options.hostName options.software options.facilities]
      else [] := by
    rw [if_neg fun hc => Bool.false_ne_true (hplain.completed.symm.trans hc.2),
      List.filter_eq_nil_iff]
    exact fun c hc => ne_true_of_eq_false (hplain.handshake c hc)
  obtain ⟨now, turn, before, after, step⟩ := t
  dsimp only at hs hmove hplain ⊢
  cases hmove with
  | heard text hother he hquiet => exact hplain hquiet
  | again text hannounces hstate he hquiet hdrop => exact hplain hquiet
  | stalled hstate he hquiet hdrop | silent hstate he hquiet hdrop => exact hplain hquiet
  | completed text hannounces hstate he hstep =>
    rw [hstep]
    simp only [hs.role, handshake, hs.options, and_true]
    split <;> rfl
  | pinged hstate hheard hdue he hstep =>
    rw [hstep, if_neg fun hc => Bool.false_ne_true hc.2]
    rfl
  | idle hfresh hheard he hstep =>
    rw [hstep, if_neg fun hc => Bool.false_ne_true hc.2]
    rfl

/-- A ping is a move of its own. -/
theorem ping_of_move {t : Taken} (hmove : Move t.now t.before t.after t.step t.turn)
    (hping : t.pings = true) :
    t.before.state = .established ∧ t.step.outboundCommands = [.hostPing] ∧
      t.before.options.pingInterval ≤ elapsed t.before.lastPingSent t.now ∧
      t.after = { t.before with lastPingSent := t.now, lastPingRoundTripAt := t.now } := by
  have hmem : HostCommand.hostPing ∈ t.step.outboundCommands := of_decide_eq_true hping
  obtain ⟨now, turn, before, after, step⟩ := t
  dsimp only at hmove hmem ⊢
  cases hmove with
  | heard text hother he hquiet => exact absurd hmem hquiet.ping
  | again text hannounces hstate he hquiet hdrop => exact absurd hmem hquiet.ping
  | stalled hstate he hquiet hdrop | silent hstate he hquiet hdrop =>
    exact absurd hmem hquiet.ping
  | completed text hannounces hstate he hstep =>
    rw [hstep] at hmem
    dsimp only at hmem
    split at hmem
    · cases List.mem_singleton.mp hmem
    · cases hmem
  | pinged hstate hheard hdue he hstep =>
    rw [hstep]
    exact ⟨hstate, rfl, hdue, he⟩
  | idle hfresh hheard he hstep =>
    rw [hstep] at hmem
    cases hmem

/-- A host heard on an established link drops it. -/
theorem second_of_move {t : Taken} (hmove : Move t.now t.before t.after t.step t.turn)
    (hhears : t.hearsHost = true) (hstate : t.before.state = .established) :
    t.step.dropReason.isSome = true := by
  obtain ⟨now, turn, before, after, step⟩ := t
  dsimp only at hmove hstate ⊢
  cases hmove with
  | heard text hother he hquiet => cases hother.symm.trans hhears
  | completed text hannounces hhandshaking he hstep => cases hstate.symm.trans hhandshaking
  | again text hannounces hest he hquiet hdrop => exact hdrop
  | stalled hest he hquiet hdrop | silent hest he hquiet hdrop => exact hdrop
  | pinged hest hheard hdue he hstep => cases hhears
  | idle hfresh hheard he hstep => cases hhears

/-- A tick drops a handshake that is too old. -/
theorem stalled_of_move {t : Taken} (hmove : Move t.now t.before t.after t.step t.turn)
    (hturn : t.turn = .tick) (hstate : t.before.state = .handshaking)
    (hold : t.before.options.handshakeTimeout ≤ elapsed t.before.handshakeSentAt t.now) :
    t.step.dropReason.isSome = true := by
  obtain ⟨now, turn, before, after, step⟩ := t
  dsimp only at hmove hturn hstate hold ⊢
  cases hmove with
  | heard text | completed text | again text => cases hturn
  | stalled hest he hquiet hdrop | silent hest he hquiet hdrop => exact hdrop
  | pinged hest hheard hdue he hstep => cases hstate.symm.trans hest
  | idle hfresh hheard he hstep => exact absurd hold (not_le.mpr (hfresh hstate))

/-- A tick drops an established link that is silent. -/
theorem silent_of_move {t : Taken} (hmove : Move t.now t.before t.after t.step t.turn)
    (hturn : t.turn = .tick) (hstate : t.before.state = .established)
    (hold : t.before.options.silenceTimeout ≤ elapsed t.before.lastInbound t.now) :
    t.step.dropReason.isSome = true := by
  obtain ⟨now, turn, before, after, step⟩ := t
  dsimp only at hmove hturn hstate hold ⊢
  cases hmove with
  | heard text | completed text | again text => cases hturn
  | stalled hest he hquiet hdrop | silent hest he hquiet hdrop => exact hdrop
  | pinged hest hheard hdue he hstep => exact absurd hold (not_le.mpr hheard)
  | idle hfresh hheard he hstep => exact absurd hold (not_le.mpr (hheard hstate))

/-- A log whose steps are moves, each of an engine that is where the steps before it left it. -/
def Traces (options : HostLinkOptions) (inbound : Bool) (start : DateTimeOffset)
    (log : List Taken) : Prop :=
  ∀ earlier t later, log = earlier ++ t :: later →
    Since options inbound start earlier t.before ∧ Move t.now t.before t.after t.step t.turn

/-- The run of a connection is such a log. -/
theorem traces_run (options : HostLinkOptions) (inbound : Bool) (start : DateTimeOffset)
    (inputs : List (DateTimeOffset × Turn)) :
    Traces options inbound start (run (opened options inbound start).1 inputs) :=
  fun _ _ _ hlog => since_run since_opened hlog

/-- What a connection begins with announces us if we connect. -/
theorem announced_opened (options : HostLinkOptions) (inbound : Bool) (start : DateTimeOffset) :
    (opened options inbound start).2.outboundCommands.filter HostCommand.isHandshake =
      if inbound then [] else
        [.hostHandshake options.hostName options.software options.facilities] := by
  cases inbound with
  | false => rfl
  | true => rfl

/-- The clock of the steps before a step does not go back either. -/
theorem pairwise_now_earlier {inputs : List (DateTimeOffset × Turn)}
    (hclock : (start :: inputs.map Prod.fst).Pairwise fun a b => a.ticks ≤ b.ticks)
    {e : HostLinkEngine} {earlier later : List Taken} {t : Taken}
    (hlog : run e inputs = earlier ++ t :: later) :
    (start :: earlier.map Taken.now).Pairwise fun a b => a.ticks ≤ b.ticks := by
  have hpre := now_run_prefix e inputs
  rw [hlog, List.map_append] at hpre
  have hsublist := ((List.prefix_append _ _).trans hpre).sublist
  exact hclock.sublist (hsublist.cons_cons start)

namespace Traces

variable (htr : Traces options inbound start log)

include htr

theorem completed_iff {earlier later : List Taken} {t : Taken}
    (hlog : log = earlier ++ t :: later) :
    t.step.handshakeCompleted = true ↔
      t.hearsHost = true ∧ ∀ s ∈ earlier, s.hearsHost = false :=
  HostLinkEngine.completed_iff (htr _ _ _ hlog).1 (htr _ _ _ hlog).2

/-- **A handshake completes once**: a step that completes it is the first to hear the host, and of
two such steps the later one is not. A peer is so registered once in a connection. -/
theorem not_completed {earlier later : List Taken} {t : Taken} (hlog : log = earlier ++ t :: later)
    (hdone : t.step.handshakeCompleted = true) {s : Taken} (hs : s ∈ earlier ++ later) :
    s.step.handshakeCompleted = false := by
  obtain ⟨hheard, hnone⟩ := (htr.completed_iff hlog).mp hdone
  refine Bool.eq_false_iff.mpr fun hagain => ?_
  rcases List.mem_append.mp hs with hs | hs
  · obtain ⟨first, rest, rfl⟩ := List.append_of_mem hs
    have hsplit : log = first ++ s :: (rest ++ t :: later) := by
      rw [hlog]
      simp
    have hheard' := ((htr.completed_iff hsplit).mp hagain).1
    exact Bool.false_ne_true ((hnone s (by simp)).symm.trans hheard')
  · obtain ⟨first, rest, rfl⟩ := List.append_of_mem hs
    have hsplit : log = (earlier ++ t :: first) ++ s :: rest := by
      rw [hlog]
      simp
    have hnone' := ((htr.completed_iff hsplit).mp hagain).2
    exact Bool.false_ne_true ((hnone' t (by simp)).symm.trans hheard)

theorem announced {t : Taken} (ht : t ∈ log) :
    t.step.outboundCommands.filter HostCommand.isHandshake =
      if inbound ∧ t.step.handshakeCompleted then
        [.hostHandshake options.hostName options.software options.facilities]
      else [] := by
  obtain ⟨earlier, later, hlog⟩ := List.append_of_mem ht
  obtain ⟨hs, hmove⟩ := htr _ _ _ hlog
  exact announced_of_move hs hmove

/-- Only the step that completes the handshake may announce us. -/
theorem announced_others {earlier later part : List Taken} {t : Taken}
    (hlog : log = earlier ++ t :: later) (hdone : t.step.handshakeCompleted = true)
    (hpart : part ⊆ earlier ++ later) :
    part.flatMap (fun s => s.step.outboundCommands.filter HostCommand.isHandshake) = [] := by
  rw [List.flatMap_eq_nil_iff]
  intro s hs
  have hmem := hpart hs
  have hin : s ∈ log := by
    rw [hlog]
    rcases List.mem_append.mp hmem with hmem | hmem
    · exact List.mem_append_left _ hmem
    · exact List.mem_append_right _ (List.mem_cons_of_mem _ hmem)
  rw [htr.announced hin, htr.not_completed hlog hdone hmem,
    if_neg fun hc => Bool.false_ne_true hc.2]

/-- Where a step before an established one is established, so is every step between. -/
theorem state_of_established {earlier later : List Taken} {t s : Taken}
    (hlog : log = earlier ++ t :: later) (hs : s ∈ earlier)
    (hest : s.after.state = .established) : t.before.state = .established := by
  obtain ⟨first, rest, rfl⟩ := List.append_of_mem hs
  obtain ⟨hsince, hmove⟩ := htr first s (rest ++ t :: later) (by rw [hlog]; simp)
  rw [(hsince.take hmove).state, stateAfter_eq_established] at hest
  obtain ⟨u, hu, hheard⟩ := hest
  rw [(htr _ _ _ hlog).1.state, stateAfter_eq_established]
  refine ⟨u, ?_, hheard⟩
  rcases List.mem_append.mp hu with hu | hu
  · simp [hu]
  · rw [List.mem_singleton.mp hu]
    simp

end Traces

/-- **Every connection keeps the discipline**, in either role and with any options, on a
clock that does not go back. -/
theorem conducts (options : HostLinkOptions) (inbound : Bool) (start : DateTimeOffset)
    (inputs : List (DateTimeOffset × Turn))
    (hclock : (start :: inputs.map Prod.fst).Pairwise fun a b => a.ticks ≤ b.ticks) :
    Conducts options inbound start (opened options inbound start).2
      (run (opened options inbound start).1 inputs) := by
  have htr := traces_run options inbound start inputs
  have hopening := announced_opened options inbound start
  have hbefore (earlier : List Taken) (t : Taken) (later : List Taken)
      (hlog : run (opened options inbound start).1 inputs = earlier ++ t :: later) :=
    pairwise_now_earlier hclock hlog
  generalize (opened options inbound start).2 = opening at hopening ⊢
  generalize run (opened options inbound start).1 inputs = log at htr hbefore ⊢
  constructor
  case completes => exact fun _ _ _ hlog => htr.completed_iff hlog
  case once => exact fun _ _ _ hlog hdone _ hs => htr.not_completed hlog hdone hs
  case announced => exact ⟨hopening, fun _ ht => htr.announced ht⟩
  case announcedOnce =>
    rintro ⟨t, ht, hdone⟩
    obtain ⟨earlier, later, hlog⟩ := List.append_of_mem ht
    have hsent := htr.announced ht
    have hothers {part : List Taken} (hpart : part ⊆ earlier ++ later) :=
      htr.announced_others hlog hdone hpart
    rw [List.filter_append, List.filter_flatMap, hlog, List.flatMap_append, List.flatMap_cons,
      hothers (List.subset_append_left _ _), hothers (List.subset_append_right _ _), hopening,
      hsent, hdone]
    cases inbound with
    | false => rfl
    | true => rfl
  case pings =>
    intro t ht hping
    obtain ⟨earlier, later, hlog⟩ := List.append_of_mem ht
    obtain ⟨hstate, hout, -⟩ := ping_of_move (htr _ _ _ hlog).2 hping
    exact ⟨hstate, hout⟩
  case spaced =>
    intro earlier t later hlog hping
    obtain ⟨hs, hmove⟩ := htr _ _ _ hlog
    obtain ⟨-, -, hdue, -⟩ := ping_of_move hmove hping
    rw [hs.options, hs.pinged] at hdue
    -- the last ping is the latest of those before this one
    obtain ⟨hstart, hall⟩ := le_latest (p := Taken.pings) (hbefore earlier t later hlog)
    unfold elapsed at hdue ⊢
    refine ⟨by omega, fun s hmem hpinged => ?_⟩
    have hle := hall s hmem hpinged
    omega
  case stays =>
    intro earlier t later hlog hest
    obtain ⟨hs, hmove⟩ := htr _ _ _ hlog
    have hestablished : t.before.state = .established := by
      rcases hest with hest | ⟨s, hmem, hest⟩
      · exact hest
      · exact htr.state_of_established hlog hmem hest
    refine ⟨hestablished, ?_⟩
    rw [(hs.take hmove).state, stateAfter_append, ← hs.state, hestablished, ite_self]
  case dropsSecond =>
    intro earlier t later hlog hhears hheard
    obtain ⟨hs, hmove⟩ := htr _ _ _ hlog
    exact second_of_move hmove hhears (hs.state.trans (stateAfter_eq_established.mpr hheard))
  case dropsStalled =>
    intro earlier t later hlog hturn hnone hold
    obtain ⟨hs, hmove⟩ := htr _ _ _ hlog
    refine stalled_of_move hmove hturn (hs.state.trans (stateAfter_eq_handshaking.mpr hnone)) ?_
    rw [hs.options, hs.begun]
    exact hold
  case dropsSilent =>
    intro earlier t later hlog hturn hold hwhen
    obtain ⟨hs, hmove⟩ := htr _ _ _ hlog
    have hstate : t.before.state = .established ∨ t.before.state = .handshaking := by
      rw [hs.state, stateAfter]
      split
      · exact Or.inl rfl
      · exact Or.inr rfl
    rcases hstate with hstate | hstate
    · refine silent_of_move hmove hturn hstate ?_
      rw [hs.options, hs.heard]
      exact hold
    · -- a handshake is at least as old as the silence in it
      rcases hwhen with hest | hle
      · cases hest.symm.trans hstate
      · refine stalled_of_move hmove hturn hstate ?_
        rw [hs.options, hs.begun]
        have hstart := (le_latest (p := Taken.hears) (hbefore earlier t later hlog)).1
        unfold elapsed at hold ⊢
        omega

/-- A parent answers after a second, and the first ping is sent a minute after the connection
began. -/
theorem conducts_exampleParent :
    Conducts (HostLinkOptions.ofHostName "NODE".toList) false ⟨0, zero_ticks_le⟩
      (opened (HostLinkOptions.ofHostName "NODE".toList) false ⟨0, zero_ticks_le⟩).2
      (run (opened (HostLinkOptions.ofHostName "NODE".toList) false ⟨0, zero_ticks_le⟩).1
        [(⟨10000000, second_ticks_le⟩, .line "/..HOST PARENT saupp1.62a Aadmpunfi".toList),
          (⟨600000000, by omega⟩, .tick)]) :=
  conducts _ false ⟨0, zero_ticks_le⟩ _ (by decide)

/-- The link is dropped on silence in any state. -/
def DropsOnSilence (options : HostLinkOptions) (start : DateTimeOffset) (log : List Taken) : Prop :=
  ∀ earlier t later, log = earlier ++ t :: later → t.turn = .tick →
    options.silenceTimeout ≤ elapsed (latest Taken.hears start earlier) t.now →
      t.step.dropReason.isSome = true

/-- Options that leave a handshake five minutes. -/
def examplePatient : HostLinkOptions :=
  { HostLinkOptions.ofHostName "NODE".toList with handshakeTimeout := 300 * 10000000 }

/-- **A silent handshake is left to its own timeout**: nothing is heard for more than three
minutes, and the tick drops nothing. -/
theorem not_dropsOnSilence_examplePatient :
    examplePatient.Valid 10000000 600000000 ∧
      ¬DropsOnSilence examplePatient ⟨0, zero_ticks_le⟩
        (run (opened examplePatient false ⟨0, zero_ticks_le⟩).1
          [(⟨2000000000, by omega⟩, .tick)]) := by
  refine ⟨by decide +kernel, fun hdrops => ?_⟩
  have hlog : run (opened examplePatient false ⟨0, zero_ticks_le⟩).1
      [(⟨2000000000, by omega⟩, .tick)] =
        [] ++ ⟨⟨2000000000, by omega⟩, .tick, (opened examplePatient false ⟨0, zero_ticks_le⟩).1,
          (opened examplePatient false ⟨0, zero_ticks_le⟩).1, EngineStep.none⟩ :: [] := by
    decide +kernel
  have hdrop := hdrops _ _ _ hlog rfl (by decide +kernel)
  cases hdrop

end HostLinkEngine

end Convers
