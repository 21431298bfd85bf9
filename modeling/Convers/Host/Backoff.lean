import Convers.Host.Handshake

/-!
# The delay between two connections

`RunAsync` dials the parent, drives the connection until it is lost and waits before
it dials again. The delay doubles up to a cap and starts afresh when
`RunOneConnectionAsync` *returns* that the link was established; a connection that is
left by an exception returns nothing.

| the connection ends | reported as established |
|---|---|
| by the end of the stream, or a drop of the engine | when it was |
| by an exception: of the read, of a write, of the engine | never |

`Convers.Reconnect.Law` is the law of the delays, by the link having been
established. It is kept exactly when no connection but the first is left by an
exception after that, unless the delay cannot grow (`Convers.Reconnect.law_iff`).
-/

namespace Convers

namespace Reconnect

open HostLink

/-! ### Steps whose sends can fail -/

/-- How the sends of one turn end: those of the step itself, those of the dispatch of
each of its events, the offer of compression and those of the announcement. -/
structure Sends where
  commands : ℕ → Bool
  events : ℕ → ℕ → Bool
  offered : Bool
  announced : ℕ → Bool

/-- The commands are sent one after another. -/
def sendCommands : (ℕ → Bool) → List HostCommand → Trace
  | _, [] => .calls []
  | succeeds, command :: commands =>
    (sendCommand (succeeds 0) command).andThen (sendCommands (fun n => succeeds (n + 1)) commands)

/-- The events of a step, up to the first that throws. -/
def applyEvents (links : Links) (now : DateTimeOffset) :
    (ℕ → ℕ → Bool) → Hub → List ConversEvent → Hub × Trace
  | _, h, [] => (h, .calls [])
  | succeeds, h, event :: events =>
    let answer := h.advance now event
    match answer.fault with
    | some _ => (answer.hub, ⟨[.onInbound event], true⟩)
    | none =>
      let done := (Trace.calls [.onInbound event]).andThen
        (dispatchActions links none (succeeds 0) answer.actions)
      if done.threw then (answer.hub, done)
      else
        let rest := applyEvents links now (fun n => succeeds (n + 1)) answer.hub events
        (rest.1, done.andThen rest.2)

/-- `ApplyStepAsync`, but for the drop. -/
def applyStep (links : Links) (now : DateTimeOffset) (sends : Sends) (h : Hub)
    (step : EngineStep) : Hub × Trace :=
  let sent := sendCommands sends.commands step.outboundCommands
  if sent.threw then (h, sent)
  else
    let applied := applyEvents links now sends.events h step.hubEvents
    (applied.1, sent.andThen applied.2)

/-- Every send of a turn succeeds. -/
def Sends.allSucceed : Sends :=
  ⟨HostLink.allSucceed, fun _ => HostLink.allSucceed, true, HostLink.allSucceed⟩

theorem sendCommands_allSucceed (commands : List HostCommand) :
    sendCommands HostLink.allSucceed commands = .calls (commands.map (.uplink · true)) := by
  induction commands with
  | nil => rfl
  | cons command commands ih =>
    have htail : (fun n => HostLink.allSucceed (n + 1)) = HostLink.allSucceed := rfl
    rw [sendCommands, htail, ih]
    rfl

theorem applyEvents_allSucceed (links : Links) (now : DateTimeOffset) (h : Hub)
    (events : List ConversEvent) :
    applyEvents links now (fun _ => HostLink.allSucceed) h events =
      HostLink.applyEvents links none now h events := by
  induction events generalizing h with
  | nil => rfl
  | cons event events ih =>
    simp only [applyEvents, HostLink.applyEvents]
    rcases (h.advance now event).fault with _ | fault
    · have hdone : ¬((Trace.calls [.onInbound event]).andThen (dispatchActions links none
          HostLink.allSucceed (h.advance now event).actions)).threw = true := by
        rw [Trace.threw_andThen, threw_dispatchActions_allSucceed]
        exact Bool.false_ne_true
      simp only [if_neg hdone, ih]
    · rfl

/-- **When every send succeeds, a step is applied as the loop of the uplink applies it.** The model
with failing sends is so an extension of the one that the other results are about. -/
theorem applyStep_allSucceed (links : Links) (now : DateTimeOffset) (h : Hub) (step : EngineStep) :
    applyStep links now .allSucceed h step = HostLink.applyStep links now h step := by
  rw [applyStep, HostLink.applyStep, Sends.allSucceed]
  simp only [sendCommands_allSucceed, applyEvents_allSucceed]
  rfl

/-- Whether `OnEstablishedAsync` throws: on the offer of compression, when that is made, or on
the announcement of a user. -/
def announceThrows (options : HostLinkOptions) (sends : Sends) (h : Hub) : Bool :=
  (options.offerCompression && !sends.offered) ||
    (sendCommands sends.announced (onEstablished h)).threw

/-! ### One connection -/

/-- How a connection ends: whether the link was established, and whether it is an exception
that leaves the loop. -/
structure Ending where
  everEstablished : Bool
  threw : Bool
  deriving DecidableEq

/-- What `RunOneConnectionAsync` returns: nothing when it throws. -/
def Ending.returned (e : Ending) : Option Bool := if e.threw then none else some e.everEstablished

/-- What completes first in a turn of the loop. -/
inductive Turn where
  /-- The stream has ended. -/
  | closed
  /-- The read throws. -/
  | readFailed
  /-- A line. -/
  | line (now : DateTimeOffset) (text : Text) (sends : Sends)
  /-- Local work is drained, which catches the exceptions of each piece of it. -/
  | drained (h : Hub)
  /-- The ticker gives no more ticks. -/
  | timerStopped
  /-- A tick. -/
  | tick (now : DateTimeOffset) (sends : Sends)

/-- The locals of `RunOneConnectionAsync`, with the hub. -/
structure Connection where
  engine : HostLinkEngine
  hub : Hub
  everEstablished : Bool

/-- One turn of the loop: the connection goes on, or it ends. The relay of a line to the peers
of the host only enqueues, and is left out. -/
def Connection.turn (links : Links) (c : Connection) : Turn → Except Ending Connection
  | .closed => .error ⟨c.everEstablished, false⟩
  | .readFailed => .error ⟨c.everEstablished, true⟩
  | .line now text sends =>
    match c.engine.onLineReceived now text with
    | .error _ => .error ⟨c.everEstablished, true⟩
    | .ok (engine, step) =>
      let everEstablished := c.everEstablished || step.handshakeCompleted
      let (h, applied) := applyStep links now sends c.hub step
      if applied.threw then .error ⟨everEstablished, true⟩
      -- the engine asks to drop
      else if step.dropReason.isSome then .error ⟨everEstablished, false⟩
      else if step.handshakeCompleted && announceThrows engine.options sends h then
        .error ⟨everEstablished, true⟩
      else .ok ⟨engine, h, everEstablished⟩
  | .drained h => .ok { c with hub := h }
  | .timerStopped => .error ⟨c.everEstablished, false⟩
  | .tick now sends =>
    let (engine, step) := c.engine.onTick now
    let (h, applied) := applyStep links now sends c.hub step
    if applied.threw then .error ⟨c.everEstablished, true⟩
    else if step.dropReason.isSome then .error ⟨c.everEstablished, false⟩
    else .ok ⟨engine, h, c.everEstablished⟩

/-- The loop, up to the turn that ends it. -/
def Connection.loop (links : Links) : Connection → List Turn → Option Ending
  | _, [] => none
  | c, turn :: turns =>
    match c.turn links turn with
    | .error ending => some ending
    | .ok c => loop links c turns

/-- One attempt of `RunAsync`. -/
inductive Attempt where
  /-- `ConnectAsync` throws. -/
  | refused
  /-- A link is there, at some moment and with some hub. -/
  | dialled (links : Links) (now : DateTimeOffset) (h : Hub) (sends : Sends) (turns : List Turn)

/-- How an attempt ends, if it does: `RunOneConnectionAsync`. -/
def Attempt.ending (options : HostLinkOptions) : Attempt → Option Ending
  | .refused => some ⟨false, true⟩
  | .dialled links now h sends turns =>
    let (engine, step) := (HostLinkEngine.new options false).onConnected now
    let (h, applied) := applyStep links now sends h step
    if applied.threw then some ⟨false, true⟩
    else Connection.loop links ⟨engine, h, false⟩ turns

/-! ### The delays -/

/-- The loop of `RunAsync`: how each attempt ended, with the delay that was waited after it. -/
def waits (options : HostLinkOptions) (initialBackoff maxBackoff : ℤ) :
    ℤ → List Attempt → List (Ending × ℤ)
  | _, [] => []
  | backoff, attempt :: attempts =>
    match attempt.ending options with
    | none => []
    | some ending =>
      let backoff := if ending.returned = some true then initialBackoff else backoff
      (ending, backoff) :: waits options initialBackoff maxBackoff
        (if backoff * 2 > maxBackoff then maxBackoff else backoff * 2) attempts

/-- `RunAsync`. -/
def runAsync (options : HostLinkOptions) (initialBackoff maxBackoff : ℤ) (attempts : List Attempt) :
    List (Ending × ℤ) :=
  waits options initialBackoff maxBackoff initialBackoff attempts

/-- What is to be waited after an attempt, by the delay after the one before it. -/
def due (initialBackoff maxBackoff : ℤ) (previous : Option ℤ) (ending : Ending) : ℤ :=
  match previous with
  | none => initialBackoff
  | some previous =>
    if ending.everEstablished then initialBackoff else min maxBackoff (2 * previous)

/-- **The law of the delays**: the initial one after the first attempt and after every one that
reached the established state, and otherwise twice the previous one, up to the cap. -/
def Law (initialBackoff maxBackoff : ℤ) (log : List (Ending × ℤ)) : Prop :=
  ∀ earlier ending delay later, log = earlier ++ (ending, delay) :: later →
    delay = due initialBackoff maxBackoff (earlier.getLast?.map Prod.snd) ending

/-- The loop is left by an exception although the link was established. -/
def Ending.Unreported (e : Ending) : Prop := e.everEstablished = true ∧ e.threw = true

/-! ### The law along the loop -/

section Loop

variable {options : HostLinkOptions} {initialBackoff maxBackoff : ℤ}

/-- The law, for the rest of a log that is behind some delay. -/
def LawFrom (initialBackoff maxBackoff : ℤ) (previous : Option ℤ) (log : List (Ending × ℤ)) :
    Prop :=
  ∀ earlier ending delay later, log = earlier ++ (ending, delay) :: later →
    delay = due initialBackoff maxBackoff ((earlier.getLast?.map Prod.snd).or previous) ending

theorem lawFrom_nil (previous : Option ℤ) : LawFrom initialBackoff maxBackoff previous [] := by
  rintro earlier ending delay later heq
  simp at heq

theorem law_iff_lawFrom (log : List (Ending × ℤ)) :
    Law initialBackoff maxBackoff log ↔ LawFrom initialBackoff maxBackoff none log := by
  simp only [Law, LawFrom, Option.or_none]

/-- The delay before a step, counted from the first of them. -/
theorem previous_cons (ending : Ending) (delay : ℤ) (earlier : List (Ending × ℤ))
    (previous : Option ℤ) :
    (((ending, delay) :: earlier).getLast?.map Prod.snd).or previous =
      (earlier.getLast?.map Prod.snd).or (some delay) := by
  rw [List.getLast?_cons]
  rcases earlier.getLast? with _ | last
  · rfl
  · rfl

theorem lawFrom_cons (previous : Option ℤ) (ending : Ending) (delay : ℤ) (log : List (Ending × ℤ)) :
    LawFrom initialBackoff maxBackoff previous ((ending, delay) :: log) ↔
      delay = due initialBackoff maxBackoff previous ending ∧
        LawFrom initialBackoff maxBackoff (some delay) log := by
  constructor
  · intro h
    refine ⟨h [] ending delay log rfl, fun earlier ending' delay' later heq => ?_⟩
    rw [← previous_cons ending delay earlier previous]
    exact h ((ending, delay) :: earlier) ending' delay' later (by rw [heq]; rfl)
  · rintro ⟨hhead, htail⟩ earlier ending' delay' later heq
    cases earlier with
    | nil =>
      cases heq
      exact hhead
    | cons first earlier =>
      obtain ⟨rfl, hlog⟩ := List.cons.inj heq
      rw [previous_cons]
      exact htail earlier ending' delay' later hlog

/-- The delay that is waited after an attempt keeps the law exactly when an exception behind the
established state cannot change it. -/
theorem delay_eq_due_iff (hinitial : 0 < initialBackoff) {previous : ℤ}
    (hle : initialBackoff ≤ previous) (hmax : previous ≤ maxBackoff) (ending : Ending) :
    (if ending.returned = some true then initialBackoff else min maxBackoff (2 * previous)) =
        due initialBackoff maxBackoff (some previous) ending ↔
      (initialBackoff = maxBackoff ∨ ¬ending.Unreported) := by
  obtain ⟨everEstablished, threw⟩ := ending
  rcases everEstablished with _ | _
  · simp [due, Ending.returned, Ending.Unreported]
  · rcases threw with _ | _
    · simp [due, Ending.returned, Ending.Unreported]
    · have hgrows :
          min maxBackoff (2 * previous) = initialBackoff ↔ initialBackoff = maxBackoff := by
        omega
      simpa [due, Ending.returned, Ending.Unreported] using hgrows

theorem double_eq (delay : ℤ) :
    (if delay * 2 > maxBackoff then maxBackoff else delay * 2) = min maxBackoff (2 * delay) := by
  split <;> omega

/-- Behind a delay between the initial one and the cap, the law is kept exactly when every
exception is reported, unless the delay cannot grow. -/
theorem lawFrom_waits (hinitial : 0 < initialBackoff) {previous : ℤ}
    (hle : initialBackoff ≤ previous)
    (hmax : previous ≤ maxBackoff) (attempts : List Attempt) :
    LawFrom initialBackoff maxBackoff (some previous)
        (waits options initialBackoff maxBackoff (min maxBackoff (2 * previous)) attempts) ↔
      (initialBackoff = maxBackoff ∨
        ∀ w ∈ waits options initialBackoff maxBackoff (min maxBackoff (2 * previous)) attempts,
          ¬w.1.Unreported) := by
  induction attempts generalizing previous with
  | nil => exact iff_of_true (lawFrom_nil _) (Or.inr (by simp [waits]))
  | cons attempt attempts ih =>
    rcases hending : attempt.ending options with _ | ending
    · simp only [waits, hending]
      exact iff_of_true (lawFrom_nil _) (Or.inr nofun)
    · have hdue := delay_eq_due_iff hinitial hle hmax ending
      simp only [waits, hending, double_eq, lawFrom_cons, List.forall_mem_cons]
      generalize hdelay : (if ending.returned = some true then initialBackoff
        else min maxBackoff (2 * previous)) = delay at hdue ⊢
      have hbounds : initialBackoff ≤ delay ∧ delay ≤ maxBackoff := by
        rw [← hdelay]
        split <;> omega
      rw [hdue, ih hbounds.1 hbounds.2]
      tauto

end Loop

/-- **The law of the delays holds exactly when every exception is reported**: on valid options,
over every sequence of attempts, if and only if the delay cannot grow or no attempt but the first
is left by an exception after the link was established. -/
theorem law_iff (options : HostLinkOptions) (initialBackoff maxBackoff : ℤ)
    (hvalid : options.Valid initialBackoff maxBackoff) (attempts : List Attempt) :
    Law initialBackoff maxBackoff (runAsync options initialBackoff maxBackoff attempts) ↔
      (initialBackoff = maxBackoff ∨
        ∀ w ∈ (runAsync options initialBackoff maxBackoff attempts).tail, ¬w.1.Unreported) := by
  obtain ⟨-, -, -, -, hinitial, hle⟩ := hvalid
  rw [law_iff_lawFrom, runAsync]
  cases attempts with
  | nil => exact iff_of_true (lawFrom_nil _) (Or.inr (by simp [waits]))
  | cons attempt attempts =>
    rcases hending : attempt.ending options with _ | ending
    · simp only [waits, hending]
      exact iff_of_true (lawFrom_nil _) (Or.inr nofun)
    · -- the first delay is the initial one, however the attempt ends
      simp only [waits, hending, ite_self, double_eq, lawFrom_cons, List.tail_cons]
      rw [lawFrom_waits hinitial le_rfl hle]
      exact and_iff_right rfl

/-- Options with the default delays: a second, and at most a minute. -/
def exampleOptions : HostLinkOptions := HostLinkOptions.ofHostName "NODE".toList

/-- A link that is established and then lost. -/
def exampleLost (loss : Turn) : Attempt :=
  .dialled ⟨true, [], List.nodup_nil⟩ HostLinkEngine.defaultTime (Hub.fresh "NODE".toList)
    .allSucceed
    [.line HostLinkEngine.defaultTime "/..HOST PARENT saupp1.62a Aadmpunfi".toList .allSucceed,
      loss]

/-- A refused dial, a link that is closed and another refused dial. -/
theorem law_exampleClosed :
    Law 10000000 600000000
        (runAsync exampleOptions 10000000 600000000 [.refused, exampleLost .closed, .refused]) ↔
      ((10000000 : ℤ) = 600000000 ∨
        ∀ w ∈ (runAsync exampleOptions 10000000 600000000
          [.refused, exampleLost .closed, .refused]).tail, ¬w.1.Unreported) :=
  law_iff exampleOptions 10000000 600000000 (by decide +kernel) _

/-- **A link that is lost to a failing read is not reported**: the delay doubles. The exception
passes by the place where the delay is set back. -/
theorem not_law_exampleFailed :
    ¬ ∀ (options : HostLinkOptions) (initialBackoff maxBackoff : ℤ),
      options.Valid initialBackoff maxBackoff → ∀ attempts : List Attempt,
        Law initialBackoff maxBackoff (runAsync options initialBackoff maxBackoff attempts) := by
  intro hall
  have hlaw := hall exampleOptions 10000000 600000000 (by decide +kernel)
    [.refused, exampleLost .readFailed]
  have hlog : runAsync exampleOptions 10000000 600000000 [.refused, exampleLost .readFailed] =
      [(⟨false, true⟩, 10000000), (⟨true, true⟩, 20000000)] := by decide +kernel
  have hdelay := hlaw [(⟨false, true⟩, 10000000)] ⟨true, true⟩ 20000000 [] hlog
  exact absurd hdelay (by decide)

end Reconnect

end Convers
