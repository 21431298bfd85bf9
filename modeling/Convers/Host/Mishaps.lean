import Convers.Host.SessionScripts
import Convers.Host.Retold

/-!
# Sessions that fail

The host and its users, with what can go wrong in a session (`Convers.FaultyHost`). A write to a
radio link may throw what `RfUserSession` does not catch: then the session is unregistered, and that
is all. A request may be cancelled: then it hands nothing over any more and waits for nothing, but a
sweep that has begun goes on.

`Convers.FaultyHost.Change` is all that a step can do: a task goes over to another script, or the
loop goes on. Whatever happens, the scripts of the tasks stay what they are
(`Convers.FaultyHost.Sorted`).
-/

namespace Convers

/-! ### The machine -/

/-- `NextSessionId`. -/
def InboundDemux.sessionId (n : ℕ) : Text := "rf-".toList ++ decimal n

/-- It is not that of a web session. -/
theorem InboundDemux.sessionId_ne_webId (n : ℕ) (call : Text) :
    sessionId n ≠ WebChatSessions.webId call := by
  intro h
  have hhead := congrArg List.head? h
  cases hhead

namespace Composition

variable (n : Composition)

/-- A write to a radio link throws, and the session does not catch it. -/
def throwAt (id : Text) : Composition :=
  match n.link id with
  | some (task, _) =>
    if task.script.writes then n.putTask { task with script := RfUserSession.unregister id } else n
  | none => n

/-- What a request waits for does not come any more. -/
def cancelAt (task : SessionTask) : Composition :=
  if task.waiting then n.putTask { task with script := .done, waiting := false } else n

/-- A request that has been cancelled takes its next step: what it hands over is refused. Only a
sweep does not mind. -/
def proceedCancelled (now : DateTimeOffset) (id : Text) : Composition :=
  match n.tasks.find? id with
  | some task =>
    match task.script with
    | .submit (.localLeave ..) next => n.putTask { task with script := next }
    | .submit .. | .snapshot _ => n.putTask { task with script := .done }
    | _ => n.step (.proceed now id)
  | none => n

end Composition

/-- The host and its users, and the requests that have been cancelled. -/
structure FaultyHost where
  host : Composition
  cancelled : Finset Text

namespace FaultyHost

/-- What can happen next. -/
inductive Label where
  /-- What can happen when nothing goes wrong. -/
  | plain (label : Composition.Label)
  /-- A write to a radio link throws something else than `ConverseTerminalClosedException`. -/
  | throws (id : Text)
  /-- A request is cancelled. -/
  | cancel (id : Text)

variable (f : FaultyHost)

/-- The next state. -/
def step : Label → FaultyHost
  | .plain (.proceed now id) =>
    { f with host :=
        if id ∈ f.cancelled then f.host.proceedCancelled now id else f.host.step (.proceed now id) }
  | .plain (.request id call pathPrefix request) =>
    if id ∈ f.cancelled then f
    else { f with host := f.host.step (.request id call pathPrefix request) }
  | .plain label => { f with host := f.host.step label }
  | .throws id => { f with host := f.host.throwAt id }
  | .cancel id =>
    match f.host.tasks.find? id with
    | some task =>
      if task.config.isNone then ⟨f.host.cancelAt task, insert id f.cancelled⟩ else f
    | none => f

/-- A label as the host has them: a radio link has an id of the demultiplexer, and what comes from
another host is no event of a session here. -/
def Label.IsProper : Label → Prop
  | .plain (.connect id ..) => ∃ n, id = InboundDemux.sessionId n
  | .plain (.inbound _ _ _ event) => event.isLocal = false
  | _ => True

/-- The host as it starts. -/
def new (options : WebChat.Options) (operatorSecret : Text) (hub : Hub) (log : ChatLog) :
    FaultyHost :=
  ⟨Composition.new options operatorSecret hub log, ∅⟩

end FaultyHost

namespace Composition

variable {n : Composition} {id : Text}

/-- A link that is open is a task. -/
theorem link_eq_some {task : SessionTask} {config : RfSessionConfig}
    (h : n.link id = some (task, config)) :
    n.tasks.find? id = some task ∧ task.config = some config ∧
      (n.shared.sinks.find? id).isSome = true := by
  obtain ⟨task', hfind, hsome⟩ := Option.bind_eq_some_iff.mp h
  split at hsome
  · rename_i hopen
    obtain ⟨config', hconfig, heq⟩ := Option.map_eq_some_iff.mp hsome
    cases heq
    exact ⟨hfind, hconfig, hopen⟩
  · cases hsome

end Composition

namespace FaultyHost

variable {f f' : FaultyHost} {label : Label}

/-! ### What a step can do -/

/-- **What a step can do**: a task goes over to another script, or the loop goes on. -/
inductive Change (f : FaultyHost) : Label → FaultyHost → Prop where
  | idle (label : Label) : Change f label f
  /-- A radio link comes. -/
  | connected {id : Text} (call : Text) (config : RfSessionConfig)
      (hid : ∃ k, id = InboundDemux.sessionId k) (hfree : f.host.tasks.find? id = none) :
      Change f (.plain (.connect id call config))
        { f with host :=
            { f.host.putTask ⟨id, Callsigns.normalize call, some config,
                RfUserSession.greetAndJoin config id (Callsigns.normalize call), false⟩ with
              shared := f.host.shared.register ⟨id, Callsigns.normalize call, true⟩ } }
  /-- A radio link that is open goes over to another script. -/
  | steered {label : Label} {id : Text} {task : SessionTask} {config : RfSessionConfig}
      {script : SessionScript} (hlink : f.host.link id = some (task, config))
      (hscript : ∀ here, RfScript id task.call here task.script → RfScript id task.call here script)
      (hwaits : ∀ next, task.script = .snapshot next → script = task.script) :
      Change f label { f with host := f.host.putTask { task with script := script } }
  /-- A write to it throws. -/
  | thrown {id : Text} {task : SessionTask} {config : RfSessionConfig}
      (hlink : f.host.link id = some (task, config)) (hwrites : task.script.writes = true) :
      Change f (.throws id)
        { f with host := f.host.putTask { task with script := RfUserSession.unregister id } }
  /-- A request arrives. -/
  | arrived {label : Label} {t : SessionTask}
      (hold : ∀ old, f.host.tasks.find? t.id = some old → old.config = none ∧ old.script = .done)
      (hconfig : t.config = none) (hscript : WebScript none t.script)
      (hwaiting : t.waiting = false) : Change f label { f with host := f.host.putTask t }
  /-- A request is cancelled. -/
  | cancelled {id : Text} {task : SessionTask} (hfind : f.host.tasks.find? id = some task)
      (hconfig : task.config = none) (hwaiting : task.waiting = false) :
      Change f (.cancel id) ⟨f.host, insert id f.cancelled⟩
  /-- It was waiting. -/
  | stopped {id : Text} {task : SessionTask} (hfind : f.host.tasks.find? id = some task)
      (hconfig : task.config = none) (hwaiting : task.waiting = true) :
      Change f (.cancel id)
        ⟨f.host.putTask { task with script := .done, waiting := false }, insert id f.cancelled⟩
  /-- What a request hands over that is cancelled is refused. -/
  | refused {id : Text} {task : SessionTask} {script : SessionScript} (now : DateTimeOffset)
      (hid : id ∈ f.cancelled) (hfind : f.host.tasks.find? id = some task)
      (hturn : (∃ e next, task.script = .submit e next) ∨ ∃ next, task.script = .snapshot next)
      (hscript : script = .done ∨
        ∃ sessionId reason, task.script = .submit (.localLeave sessionId reason) script) :
      Change f (.plain (.proceed now id))
        { f with host := f.host.putTask { task with script := script } }
  /-- A task takes its next step. -/
  | turned {id : Text} {task : SessionTask} (now : DateTimeOffset)
      (hfind : f.host.tasks.find? id = some task) (hwaiting : task.waiting = false)
      (hid : id ∈ f.cancelled → (∀ e next, task.script ≠ .submit e next) ∧
        ∀ next, task.script ≠ .snapshot next) :
      Change f (.plain (.proceed now id)) { f with host := (f.host.proceedTask now task).1 }
  /-- The loop takes an event off its queue. -/
  | drained {e : ConversEvent} {queue : List LoopWork} (links : HostLink.Links)
      (succeeds : ℕ → Bool) (now : DateTimeOffset) (log : ChatLog)
      (hqueue : f.host.queue = .event e :: queue) :
      Change f (.plain (.drain links succeeds now))
        { f with host :=
            { f.host with hub := Hub.step f.host.hub (now, e), log := log, queue := queue } }
  /-- It hears of one of another host. -/
  | heard {label : Label} {e : ConversEvent} (now : DateTimeOffset) (log : ChatLog)
      (he : e.isLocal = false) :
      Change f label
        { f with host := { f.host with hub := Hub.step f.host.hub (now, e), log := log } }
  /-- A snapshot comes. -/
  | answered {id : Text} {task : SessionTask} {queue : List LoopWork} (links : HostLink.Links)
      (succeeds : ℕ → Bool) (now : DateTimeOffset) (hqueue : f.host.queue = .snapshot id :: queue)
      (hfind : f.host.tasks.find? id = some task) (hwaiting : task.waiting = true) :
      Change f (.plain (.drain links succeeds now))
        { f with host :=
            { f.host with
              queue := queue
              tasks := f.host.tasks.put
                { task with
                  script := task.script.resume f.host.hub f.host.shared
                  waiting := false } } }
  /-- Nobody waits for it any more. -/
  | skipped {id : Text} {queue : List LoopWork} (links : HostLink.Links) (succeeds : ℕ → Bool)
      (now : DateTimeOffset) (hqueue : f.host.queue = .snapshot id :: queue)
      (hwaiting : ∀ task, f.host.tasks.find? id = some task → task.waiting = false) :
      Change f (.plain (.drain links succeeds now))
        { f with host := { f.host with queue := queue } }

/-- A task takes its next step, unless it waits. -/
theorem change_proceed (now : DateTimeOffset) {id : Text}
    (hid : ∀ task, f.host.tasks.find? id = some task → id ∈ f.cancelled →
      (∀ e next, task.script ≠ .submit e next) ∧ ∀ next, task.script ≠ .snapshot next) :
    Change f (.plain (.proceed now id)) { f with host := f.host.step (.proceed now id) } := by
  rw [Composition.step, Composition.next]
  split
  · rename_i task hfind
    split
    · exact .idle _
    · rename_i hwaiting
      exact .turned now hfind (Bool.eq_false_iff.mpr hwaiting) (hid task hfind)
  · exact .idle _

theorem change_proceedCancelled (now : DateTimeOffset) {id : Text} (hid : id ∈ f.cancelled) :
    Change f (.plain (.proceed now id)) { f with host := f.host.proceedCancelled now id } := by
  rw [Composition.proceedCancelled]
  split
  · rename_i task hfind
    split
    · rename_i sessionId reason next hscript
      exact .refused now hid hfind (Or.inl ⟨_, _, hscript⟩) (Or.inr ⟨_, _, hscript⟩)
    · rename_i e next hscript
      exact .refused now hid hfind (Or.inl ⟨_, _, hscript⟩) (Or.inl rfl)
    · rename_i next hscript
      exact .refused now hid hfind (Or.inr ⟨_, hscript⟩) (Or.inl rfl)
    · rename_i hnoLeave hnoSubmit hnoSnapshot
      refine change_proceed now fun task' hfind' _ => ?_
      obtain rfl : task = task' := Option.some.inj (hfind.symm.trans hfind')
      exact ⟨hnoSubmit, hnoSnapshot⟩
  · exact .idle _

/-- The loop takes an item off its queue. -/
theorem change_drain (links : HostLink.Links) (succeeds : ℕ → Bool) (now : DateTimeOffset) :
    Change f (.plain (.drain links succeeds now))
      { f with host := (f.host.drainQueue links succeeds now).1 } := by
  rw [Composition.drainQueue]
  split
  · exact .idle _
  · rename_i e queue hqueue
    have hchange := Change.drained links succeeds now (ChatLogWriter.record now f.host.log
      (HostLink.drainLocalEvent links HostLink.isLoggableLocal succeeds now f.host.hub e).2.effects)
      hqueue
    rw [← HostLink.hub_drainLocalEvent links now f.host.hub HostLink.isLoggableLocal succeeds]
      at hchange
    exact hchange
  · rename_i taskId queue hqueue
    dsimp only
    split
    · rename_i task hfind
      split
      · rename_i hwaiting
        exact .answered links succeeds now hqueue hfind hwaiting
      · rename_i hwaiting
        refine .skipped links succeeds now hqueue fun task' hfind' => ?_
        obtain rfl : task = task' := Option.some.inj (hfind.symm.trans hfind')
        exact Bool.eq_false_iff.mpr hwaiting
    · rename_i hfind
      refine .skipped links succeeds now hqueue fun task' hfind' => ?_
      cases hfind.symm.trans hfind'

/-- What the radio links do. -/
theorem change_link {id : Text} :
    (∀ intent, Change f (.plain (.readLine id intent))
      { f with host := f.host.step (.readLine id intent) }) ∧
    (∀ response, Change f (.plain (.respond id response))
      { f with host := f.host.step (.respond id response) }) ∧
    Change f (.plain (.close id)) { f with host := f.host.step (.close id) } := by
  refine ⟨fun intent => ?_, fun response => ?_, ?_⟩
  · rw [Composition.step, Composition.next]
    split
    · rename_i task config hlink
      split
      · rename_i hdone
        refine .steered hlink (fun _ _ => .handle config intent) fun next hnext => ?_
        rw [hnext] at hdone
        cases hdone
      · exact .idle _
    · exact .idle _
  · rw [Composition.step, Composition.next]
    split
    · rename_i task config hlink
      refine .steered hlink (fun _ h => h.answer response) fun next hnext => ?_
      rw [hnext]
      rfl
    · exact .idle _
  · rw [Composition.step, Composition.next]
    split
    · rename_i task config hlink
      split
      · rename_i hopen
        refine .steered hlink (fun _ _ => .drop) fun next hnext => ?_
        rw [hnext] at hopen
        cases hopen
      · exact .idle _
    · exact .idle _

/-- **No step can do anything else.** The invariants of a host are case analyses on it. -/
theorem change_step (hproper : label.IsProper) : Change f label (f.step label) := by
  cases label with
  | plain label =>
    cases label with
    | connect id call config =>
      change Change f _ { f with host := f.host.step (.connect id call config) }
      rw [Composition.step, Composition.next]
      dsimp only
      rcases hfind : f.host.tasks.find? id with _ | task
      · exact .connected call config hproper hfind
      · exact .idle _
    | readLine id intent => exact change_link.1 intent
    | respond id response => exact change_link.2.1 response
    | close id => exact change_link.2.2
    | request id call pathPrefix request =>
      rw [FaultyHost.step]
      split
      · exact .idle _
      · rw [Composition.step, Composition.next]
        split
        · -- a request takes the id of one that is done
          rename_i hfree
          refine .arrived (fun old hold => ?_) rfl
            (.handle _ _ _ (Callsigns.normalize_normalize call) request) rfl
          rw [Composition.isFree, show f.host.tasks.find? id = some old from hold, Option.all_some,
            Bool.and_eq_true] at hfree
          refine ⟨Option.isNone_iff_eq_none.mp hfree.1, ?_⟩
          exact Script.eq_done_of_isDone hfree.2
        · exact .idle _
    | proceed now id =>
      rw [FaultyHost.step]
      split
      · rename_i hid
        exact change_proceedCancelled now hid
      · rename_i hid
        exact change_proceed now fun _ _ hmem => absurd hmem hid
    | drain links succeeds now => exact change_drain links succeeds now
    | inbound links exceptPeerId now event =>
      -- the hub hears of the event, and only links and log know the rest
      have hchange : Change f (.plain (.inbound links exceptPeerId now event)) _ :=
        .heard now (f.host.step (.inbound links exceptPeerId now event)).log hproper
      rw [show Hub.step f.host.hub (now, event) = _ from (HostLink.hub_applyEvents ..).symm]
        at hchange
      exact hchange
  | throws id =>
    rw [FaultyHost.step, Composition.throwAt]
    split
    · rename_i task config hlink
      split
      · rename_i hwrites
        exact .thrown hlink hwrites
      · exact .idle _
    · exact .idle _
  | cancel id =>
    rw [FaultyHost.step]
    split
    · rename_i task hfind
      split
      · rename_i hnone
        have hconfig := Option.isNone_iff_eq_none.mp hnone
        rw [Composition.cancelAt]
        split
        · rename_i hwaiting
          exact .stopped hfind hconfig hwaiting
        · rename_i hwaiting
          exact .cancelled hfind hconfig (Bool.eq_false_iff.mpr hwaiting)
      · exact .idle _
    · exact .idle _

/-! ### What the scripts are -/

/-- **What every run keeps**, whatever goes wrong. -/
structure Sorted (f : FaultyHost) : Prop where
  kept : f.host.shared.Kept
  link : ∀ id task, f.host.tasks.find? id = some task → task.config.isSome = true →
    (∃ k, id = InboundDemux.sessionId k) ∧ Callsigns.normalize task.call = task.call ∧
      ∃ here, RfScript id task.call here task.script
  request : ∀ id task, f.host.tasks.find? id = some task → task.config = none →
    ∃ owed, WebScript owed task.script
  waits : ∀ id task, f.host.tasks.find? id = some task → task.waiting = true →
    ∃ next, task.script = .snapshot next
  cancelled : ∀ id ∈ f.cancelled, ∃ task, f.host.tasks.find? id = some task ∧
    task.config = none ∧ task.waiting = false

/-- One that writes does not wait. -/
theorem Sorted.not_waiting (hs : f.Sorted) {id : Text} {task : SessionTask}
    (hfind : f.host.tasks.find? id = some task) (hscript : ∀ next, task.script ≠ .snapshot next) :
    task.waiting = false := by
  rcases hwaiting : task.waiting with _ | _
  · rfl
  · obtain ⟨next, hnext⟩ := hs.waits id task hfind hwaiting
    exact absurd hnext (hscript next)

/-- A radio link is not cancelled. -/
theorem Sorted.not_cancelled (hs : f.Sorted) {id : Text} {task : SessionTask}
    (hfind : f.host.tasks.find? id = some task) (hconfig : task.config.isSome = true) :
    id ∉ f.cancelled := by
  intro hid
  obtain ⟨old, hold, hnone, -⟩ := hs.cancelled id hid
  obtain rfl : task = old := Option.some.inj (hfind.symm.trans hold)
  rw [hnone] at hconfig
  cases hconfig

/-- **A task goes over to another state**: what has to be shown. Most of the changes of a host are
of one task. -/
theorem Sorted.put (hs : f.Sorted) {t : SessionTask} {n' : Composition} {cancelled : Finset Text}
    (htasks : n'.tasks = f.host.tasks.put t) (hkept : n'.shared.Kept)
    (hlink : t.config.isSome = true → (∃ k, t.id = InboundDemux.sessionId k) ∧
      Callsigns.normalize t.call = t.call ∧ ∃ here, RfScript t.id t.call here t.script)
    (hrequest : t.config = none → ∃ owed, WebScript owed t.script)
    (hwaits : t.waiting = true → ∃ next, t.script = .snapshot next)
    (hcancelled : ∀ id ∈ cancelled, (id = t.id → t.config = none ∧ t.waiting = false) ∧
      (id ≠ t.id → id ∈ f.cancelled)) : Sorted ⟨n', cancelled⟩ := by
  have hfind : ∀ id, n'.tasks.find? id = if id = t.id then some t else f.host.tasks.find? id := by
    intro id
    rw [htasks]
    exact f.host.tasks.find?_put t id
  constructor
  · exact hkept
  · intro id task htask hconfig
    rw [hfind] at htask
    split at htask
    · rename_i hid
      cases htask
      exact hid ▸ hlink hconfig
    · exact hs.link id task htask hconfig
  · intro id task htask hconfig
    rw [hfind] at htask
    split at htask
    · cases htask
      exact hrequest hconfig
    · exact hs.request id task htask hconfig
  · intro id task htask hwaiting
    rw [hfind] at htask
    split at htask
    · cases htask
      exact hwaits hwaiting
    · exact hs.waits id task htask hwaiting
  · -- who is cancelled was so before, or is the task itself
    intro id hid
    obtain ⟨hself, hother⟩ := hcancelled id hid
    by_cases heq : id = t.id
    · exact ⟨t, (hfind id).trans (if_pos heq), hself heq⟩
    · obtain ⟨task, htask, hquiet⟩ := hs.cancelled id (hother heq)
      exact ⟨task, (hfind id).trans ((if_neg heq).trans htask), hquiet⟩

/-- A radio link goes over to another script of its own. -/
theorem Sorted.putLink (hs : f.Sorted) {id : Text} {task : SessionTask} {n' : Composition}
    {script : SessionScript} {waiting : Bool} (hfind : f.host.tasks.find? id = some task)
    (hconfig : task.config.isSome = true)
    (htasks : n'.tasks = f.host.tasks.put { task with script := script, waiting := waiting })
    (hkept : n'.shared.Kept) (hscript : ∃ here, RfScript id task.call here script)
    (hwaits : waiting = true → ∃ next, script = .snapshot next) :
    Sorted { f with host := n' } := by
  obtain rfl : task.id = id := Table.key_of_find? hfind
  obtain ⟨hproper, hcanonical, -⟩ := hs.link task.id task hfind hconfig
  refine hs.put htasks hkept (fun _ => ⟨hproper, hcanonical, hscript⟩) (fun hnone => ?_) hwaits
    fun id hid => ⟨?_, fun _ => hid⟩
  · rw [show task.config = none from hnone] at hconfig
    cases hconfig
  · rintro rfl
    exact absurd hid (hs.not_cancelled hfind hconfig)

/-- A request goes over to another script of its own. -/
theorem Sorted.putRequest (hs : f.Sorted) {t : SessionTask} {n' : Composition}
    {cancelled : Finset Text} (htasks : n'.tasks = f.host.tasks.put t) (hkept : n'.shared.Kept)
    (hconfig : t.config = none) (hscript : ∃ owed, WebScript owed t.script)
    (hwaits : t.waiting = true → ∃ next, t.script = .snapshot next)
    (hcancelled : ∀ id ∈ cancelled, (id = t.id → t.waiting = false) ∧
      (id ≠ t.id → id ∈ f.cancelled)) : Sorted ⟨n', cancelled⟩ := by
  refine hs.put htasks hkept (fun hsome => ?_) (fun _ => hscript) hwaits fun id hid =>
    ⟨fun heq => ⟨hconfig, (hcancelled id hid).1 heq⟩, (hcancelled id hid).2⟩
  rw [hconfig] at hsome
  cases hsome

/-- **Every step keeps it.** It is what the other invariants of a host may take for granted. -/
theorem Sorted.change (hs : f.Sorted) (hc : Change f label f') : f'.Sorted := by
  cases hc with
  | idle => exact hs
  | @connected id call config hid hfree =>
    refine hs.put rfl hs.kept (fun _ => ⟨hid, Callsigns.normalize_normalize call, false,
      .greetAndJoin config⟩) nofun nofun fun id' hid' => ⟨?_, fun _ => hid'⟩
    -- the id is free, so it is not one that is cancelled
    rintro rfl
    obtain ⟨old, hold, -⟩ := hs.cancelled _ hid'
    cases hfree.symm.trans hold
  | @steered label id task config script hlink hscript hwaits =>
    obtain ⟨hfind, hconfig, -⟩ := Composition.link_eq_some hlink
    obtain ⟨-, -, here, hold⟩ := hs.link id task hfind (hconfig ▸ rfl)
    refine hs.putLink hfind (hconfig ▸ rfl) rfl hs.kept ⟨here, hscript here hold⟩ fun hwaiting => ?_
    obtain ⟨next, hnext⟩ := hs.waits id task hfind hwaiting
    exact ⟨next, (hwaits next hnext).trans hnext⟩
  | @thrown id task config hlink hwrites =>
    obtain ⟨hfind, hconfig, -⟩ := Composition.link_eq_some hlink
    refine hs.putLink hfind (hconfig ▸ rfl) rfl hs.kept ⟨false, .unregister⟩ fun hwaiting => ?_
    obtain ⟨next, hnext⟩ := hs.waits id task hfind hwaiting
    rw [hnext] at hwrites
    cases hwrites
  | @arrived label t hold hconfig hscript hwaiting =>
    refine hs.putRequest rfl hs.kept hconfig ⟨none, hscript⟩ (fun h => ?_) fun id hid =>
      ⟨fun _ => hwaiting, fun _ => hid⟩
    cases hwaiting.symm.trans h
  | @cancelled id task hfind hconfig hwaiting =>
    refine ⟨hs.kept, hs.link, hs.request, hs.waits, fun id' hid' => ?_⟩
    rcases Finset.mem_insert.mp hid' with rfl | hid'
    · exact ⟨task, hfind, hconfig, hwaiting⟩
    · exact hs.cancelled id' hid'
  | @stopped id task hfind hconfig hwaiting =>
    obtain rfl : task.id = id := Table.key_of_find? hfind
    refine hs.putRequest rfl hs.kept hconfig ⟨none, .done⟩ nofun fun id' hid' =>
      ⟨fun _ => rfl, fun hne => (Finset.mem_insert.mp hid').resolve_left hne⟩
  | @refused id task script now hid hfind hturn hscript =>
    obtain ⟨old, hold, hconfig, hwaiting⟩ := hs.cancelled id hid
    obtain rfl : task = old := Option.some.inj (hfind.symm.trans hold)
    refine hs.putRequest rfl hs.kept hconfig ?_ (fun h => ?_) fun id' hid' =>
      ⟨fun _ => hwaiting, fun _ => hid'⟩
    · -- a refused leave goes on behind it, anything else that is refused ends the request
      rcases hscript with rfl | ⟨sessionId, reason, hleave⟩
      · exact ⟨none, .done⟩
      · obtain ⟨owed, howed⟩ := hs.request id task hfind hconfig
        rw [hleave] at howed
        cases howed with
        | submit hevent h => exact ⟨none, h⟩
        | leave h => exact ⟨none, h⟩
    · cases hwaiting.symm.trans h
  | @turned id task now hfind hwaiting hid =>
    obtain rfl : task.id = id := Table.key_of_find? hfind
    by_cases hconfig : task.config.isSome = true
    · obtain ⟨-, -, here, hscript⟩ := hs.link task.id task hfind hconfig
      obtain ⟨-, hnext, hshared⟩ := hscript.turn now f.host.shared
      refine hs.putLink hfind hconfig rfl ?_ ⟨_, hnext⟩ Script.next_turn_of_asks
      rcases hshared with heq | ⟨-, heq, -⟩
      · exact (congrArg Shared.Kept heq).mpr hs.kept
      · exact (congrArg Shared.Kept heq).mpr hs.kept
    · have hnone : task.config = none := Option.not_isSome_iff_eq_none.mp hconfig
      obtain ⟨owed, hscript⟩ := hs.request task.id task hfind hnone
      obtain ⟨owed', hnext, hstepped⟩ := hscript.turn now hs.kept
      refine hs.putRequest rfl (hstepped.kept hs.kept) hnone ⟨owed', hnext⟩
        Script.next_turn_of_asks fun id' hid' => ⟨?_, fun _ => hid'⟩
      rintro rfl
      -- one that is cancelled asks for no snapshot, so it does not wait after the step
      obtain ⟨hsubmit, hsnapshot⟩ := hid hid'
      dsimp only
      rcases hscript' : task.script with _ | _ | _ | next
      · rfl
      · rfl
      · rfl
      · exact absurd hscript' (hsnapshot next)
      · rfl
      · rfl
      · rfl
  | drained | heard | skipped => exact ⟨hs.kept, hs.link, hs.request, hs.waits, hs.cancelled⟩
  | @answered id task queue links succeeds now hqueue hfind hwaiting =>
    obtain rfl : task.id = id := Table.key_of_find? hfind
    by_cases hconfig : task.config.isSome = true
    · obtain ⟨-, -, here, hscript⟩ := hs.link task.id task hfind hconfig
      exact hs.putLink hfind hconfig rfl hs.kept ⟨here, hscript.resume _ _⟩ nofun
    · have hnone : task.config = none := Option.not_isSome_iff_eq_none.mp hconfig
      obtain ⟨owed, hscript⟩ := hs.request task.id task hfind hnone
      exact hs.putRequest rfl hs.kept hnone ⟨owed, hscript.resume _ _⟩ nofun fun id' hid' =>
        ⟨fun _ => rfl, fun _ => hid'⟩

/-- It is so at the start. -/
theorem sorted_new (options : WebChat.Options) (operatorSecret : Text) (hub : Hub) (log : ChatLog) :
    (new options operatorSecret hub log).Sorted := by
  refine ⟨?_, ?_, ?_, ?_, ?_⟩
  · rintro call ref href
    cases href
  · rintro id task hfind
    cases hfind
  · rintro id task hfind
    cases hfind
  · rintro id task hfind
    cases hfind
  · rintro id hid
    cases hid

end FaultyHost

end Convers
