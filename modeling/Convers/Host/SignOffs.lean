import Convers.Host.Mishaps

/-!
# Every session is signed off

A radio link that has joined is left when it ends: on every exit of its session the leave is on the
queue before the session is unregistered. The exceptions are the writes that throw something else
than `ConverseTerminalClosedException`, which nothing catches: then the session is unregistered, and
who was here stays. When nothing else is thrown while a session may be here, a session that has
ended is gone once the queue is drained (`Convers.FaultyHost.isSignedOff_final`).
-/

namespace Convers

open WebChatSessions (webId)

namespace FaultyHost

/-- A callsign goes with an id: of a web session it is in the id, of a radio link the task knows
it. -/
def Bound (f : FaultyHost) (id call : Text) : Prop :=
  Callsigns.normalize call = call ∧
    (id = webId call ∨ ∃ task, f.host.tasks.find? id = some task ∧ task.config.isSome = true ∧
      task.call = call)

/-- **What a radio link is worth**: its script leaves before it is unregistered, and once it is
unregistered, nobody is here or on his way under its id. -/
structure Link (n : Composition) (id : Text) (task : SessionTask) : Prop where
  script : RfScript id task.call (n.mayStay id) task.script
  ended : n.shared.sinks.find? id = none → task.script = .done ∧ n.mayStay id = false

/-- **What a run keeps** in which nothing else is thrown. -/
structure Tidy (f : FaultyHost) : Prop extends f.Sorted where
  links : ∀ id task, f.host.tasks.find? id = some task → task.config.isSome = true →
    Link f.host id task
  joins : ∀ id call channel, .event (.localJoin id call channel) ∈ f.host.queue → f.Bound id call
  calls : ∀ id call, f.host.hub.callOf id = some call → f.Bound id call
  listed : f.host.hub.Listed

section Step

variable {f f' : FaultyHost} {label : Label}

/-- An id has one callsign. -/
theorem Bound.unique (hs : f.Sorted) {id call call' : Text} (hb : f.Bound id call)
    (hb' : f.Bound id call') : call = call' := by
  obtain ⟨-, heq | ⟨task, hfind, hconfig, hcall⟩⟩ := hb
  · obtain ⟨-, heq' | ⟨task', hfind', hconfig', -⟩⟩ := hb'
    · exact List.append_cancel_left (heq.symm.trans heq')
    · obtain ⟨⟨k, hk⟩, -⟩ := hs.link id task' hfind' hconfig'
      exact absurd (hk.symm.trans heq) (InboundDemux.sessionId_ne_webId k call)
  · obtain ⟨-, heq' | ⟨task', hfind', -, hcall'⟩⟩ := hb'
    · obtain ⟨⟨k, hk⟩, -⟩ := hs.link id task hfind hconfig
      exact absurd (hk.symm.trans heq') (InboundDemux.sessionId_ne_webId k call')
    · obtain rfl : task = task' := Option.some.inj (hfind.symm.trans hfind')
      exact hcall.symm.trans hcall'

/-! #### A task -/

/-- **A task goes over to another state**, and hands something over: what has to be shown. The task
is `t` after it, and what is new on the queue is `works`. A step of a task comes down to it,
whatever kind of task it is. -/
theorem Tidy.put (ht : f.Tidy) {t : SessionTask} {n' : Composition} {cancelled : Finset Text}
    {works : List LoopWork} (hs' : Sorted ⟨n', cancelled⟩)
    (htasks : n'.tasks = f.host.tasks.put t) (hhub : n'.hub = f.host.hub)
    (hqueue : n'.queue = f.host.queue ++ works)
    (hspares : ∀ k, InboundDemux.sessionId k ≠ t.id → ∀ work ∈ works, ∀ here,
      work.settles (InboundDemux.sessionId k) here = here)
    (hsinks : ∀ k, InboundDemux.sessionId k ≠ t.id →
      n'.shared.sinks.find? (InboundDemux.sessionId k) =
        f.host.shared.sinks.find? (InboundDemux.sessionId k))
    (hsame : ∀ old, f.host.tasks.find? t.id = some old → old.config.isSome = true →
      t.config.isSome = true ∧ t.call = old.call)
    (hlink : t.config.isSome = true → Link n' t.id t)
    (hjoins : ∀ id call channel, .event (.localJoin id call channel) ∈ works →
      Callsigns.normalize call = call ∧
        (id = webId call ∨ id = t.id ∧ t.config.isSome = true ∧ t.call = call)) :
    Tidy ⟨n', cancelled⟩ := by
  have hfind : ∀ id, n'.tasks.find? id = if id = t.id then some t else f.host.tasks.find? id := by
    intro id
    rw [htasks]
    exact f.host.tasks.find?_put t id
  have hbound : ∀ {id call}, f.Bound id call → Bound ⟨n', cancelled⟩ id call := by
    rintro id call ⟨hcall, heq | ⟨task, htask, hconfig, hof⟩⟩
    · exact ⟨hcall, Or.inl heq⟩
    · refine ⟨hcall, Or.inr ?_⟩
      by_cases hid : id = t.id
      · obtain ⟨hconfig', hof'⟩ := hsame task (hid ▸ htask) hconfig
        exact ⟨t, (hfind id).trans (if_pos hid), hconfig', hof'.trans hof⟩
      · exact ⟨task, (hfind id).trans ((if_neg hid).trans htask), hconfig, hof⟩
  have hstay : ∀ k, InboundDemux.sessionId k ≠ t.id →
      n'.mayStay (InboundDemux.sessionId k) = f.host.mayStay (InboundDemux.sessionId k) := by
    intro k hk
    rw [Composition.mayStay_append hhub hqueue]
    exact Composition.foldl_settles_of_forall (hspares k hk)
  refine ⟨hs', fun id task htask hconfig => ?_, fun id call channel hmem => ?_,
    fun id call hcall => ?_, ?_⟩
  · -- the other links keep their scripts, and what is new is no word of theirs
    dsimp only at htask ⊢
    rw [hfind] at htask
    split at htask
    · rename_i hid
      cases htask
      exact hid ▸ hlink hconfig
    · rename_i hid
      obtain ⟨⟨k, rfl⟩, -⟩ := ht.link id task htask hconfig
      obtain ⟨hscript, hended⟩ := ht.links _ task htask hconfig
      constructor
      · rw [hstay k hid]
        exact hscript
      · rw [hstay k hid, hsinks k hid]
        exact hended
  · -- a join that is on its way was so before, or was just handed over
    dsimp only at hmem
    rw [hqueue] at hmem
    rcases List.mem_append.mp hmem with hmem | hmem
    · exact hbound (ht.joins id call channel hmem)
    · obtain ⟨hcall, heq | ⟨rfl, hconfig, hof⟩⟩ := hjoins id call channel hmem
      · exact ⟨hcall, Or.inl heq⟩
      · exact ⟨hcall, Or.inr ⟨t, (hfind t.id).trans (if_pos rfl), hconfig, hof⟩⟩
  · dsimp only at hcall
    rw [hhub] at hcall
    exact hbound (ht.calls id call hcall)
  · dsimp only
    rw [hhub]
    exact ht.listed

/-- A radio link goes over to another script of its own. -/
theorem Tidy.putLink (ht : f.Tidy) {id : Text} {task : SessionTask} {script : SessionScript}
    {waiting : Bool} (hfind : f.host.tasks.find? id = some task)
    (hconfig : task.config.isSome = true)
    (hs' : Sorted
      ⟨f.host.putTask { task with script := script, waiting := waiting }, f.cancelled⟩)
    (hscript : RfScript id task.call (f.host.mayStay id) script)
    (hended : f.host.shared.sinks.find? id = none → script = .done) :
    Tidy { f with host := f.host.putTask { task with script := script, waiting := waiting } } := by
  obtain rfl : task.id = id := Table.key_of_find? hfind
  refine ht.put hs' rfl rfl (List.append_nil _).symm (by simp) (fun _ _ => rfl) ?_ (fun _ => ?_)
    (by simp)
  · rintro old hold -
    obtain rfl : task = old := Option.some.inj (hfind.symm.trans hold)
    exact ⟨hconfig, rfl⟩
  · exact ⟨hscript, fun hnone =>
      ⟨hended hnone, ((ht.links task.id task hfind hconfig).ended hnone).2⟩⟩

/-- A request goes over to another script of its own. -/
theorem Tidy.putRequest (ht : f.Tidy) {t : SessionTask} {cancelled : Finset Text}
    (hs' : Sorted ⟨f.host.putTask t, cancelled⟩)
    (hold : ∀ old, f.host.tasks.find? t.id = some old → old.config = none)
    (hconfig : t.config = none) : Tidy ⟨f.host.putTask t, cancelled⟩ := by
  refine ht.put hs' rfl rfl (List.append_nil _).symm (by simp) (fun _ _ => rfl) ?_ ?_ (by simp)
  · intro old hfind hsome
    rw [hold old hfind] at hsome
    cases hsome
  · intro hsome
    rw [hconfig] at hsome
    cases hsome

/-- A radio link takes its next step. -/
theorem Tidy.turnLink (ht : f.Tidy) {id : Text} {task : SessionTask} (now : DateTimeOffset)
    (hs' : Sorted { f with host := (f.host.proceedTask now task).1 })
    (hfind : f.host.tasks.find? id = some task) (hconfig : task.config.isSome = true) :
    Tidy { f with host := (f.host.proceedTask now task).1 } := by
  obtain rfl : task.id = id := Table.key_of_find? hfind
  obtain ⟨-, hcanonical, -⟩ := ht.link task.id task hfind hconfig
  obtain ⟨hscript, hgone⟩ := ht.links task.id task hfind hconfig
  obtain ⟨hevent, hnext, hshared⟩ := hscript.turn now f.host.shared
  have hstay : (f.host.proceedTask now task).1.mayStay task.id =
      ((task.script.turn now f.host.shared).event.map
        (·.settles task.id (f.host.mayStay task.id))).getD (f.host.mayStay task.id) :=
    Eq.trans (Composition.mayStay_append (n := f.host) rfl (List.append_assoc ..))
      (Composition.foldl_settles_turn _ _ _ _)
  refine ht.put hs' rfl rfl (List.append_assoc ..) ?_ ?_ ?_ (fun _ => ?_) ?_
  · -- what a radio link hands over is about its own id
    intro k hk work hwork here
    rcases Composition.mem_turn hwork with ⟨e, he, rfl⟩ | rfl
    · refine ConversEvent.settles_of_ne (fun htenure => hk ?_) here
      have hby := hevent e he
      cases e with
      | localJoin => exact (Option.some.inj htenure).symm.trans hby.1
      | localLeave => exact (Option.some.inj htenure).symm.trans hby
      | _ => cases htenure
    · rfl
  · intro k hk
    rcases hshared with heq | ⟨-, heq, -⟩
    · exact congrArg (fun w : Shared => w.sinks.find? _) heq
    · refine (congrArg (fun w : Shared => w.sinks.find? _) heq).trans ?_
      exact (f.host.shared.sinks.find?_remove _ _).trans (if_neg hk)
  · rintro old hold -
    obtain rfl : task = old := Option.some.inj (hfind.symm.trans hold)
    exact ⟨hconfig, rfl⟩
  · refine ⟨hstay.symm ▸ hnext, fun hnone => ?_⟩
    rw [hstay]
    rcases hshared with heq | ⟨hfalse, -, hdone, hnoEvent⟩
    · -- it had ended before
      obtain ⟨hdone, hfalse⟩ := hgone (heq ▸ hnone)
      dsimp only
      rw [hdone, hfalse]
      exact ⟨rfl, rfl⟩
    · rw [hnoEvent, hfalse]
      exact ⟨hdone, rfl⟩
  · -- a link joins with its own callsign
    intro id call channel hmem
    rcases Composition.mem_turn hmem with ⟨e, he, heq⟩ | heq
    · cases heq
      obtain ⟨rfl, rfl⟩ := hevent _ he
      exact ⟨hcanonical, Or.inr ⟨rfl, hconfig, rfl⟩⟩
    · cases heq

/-- A request takes its next step. -/
theorem Tidy.turnRequest (ht : f.Tidy) {id : Text} {task : SessionTask} (now : DateTimeOffset)
    (hs' : Sorted { f with host := (f.host.proceedTask now task).1 })
    (hfind : f.host.tasks.find? id = some task) (hconfig : task.config = none) :
    Tidy { f with host := (f.host.proceedTask now task).1 } := by
  obtain rfl : task.id = id := Table.key_of_find? hfind
  obtain ⟨owed, hscript⟩ := ht.request task.id task hfind hconfig
  obtain ⟨owed', -, hstepped⟩ := hscript.turn now ht.kept
  refine ht.put hs' rfl rfl (List.append_assoc ..) ?_ ?_ ?_ ?_ ?_
  · -- what a request hands over is about the id of a web session
    intro k hk work hwork here
    rcases Composition.mem_turn hwork with ⟨e, he, rfl⟩ | rfl
    · refine ConversEvent.settles_of_ne (fun htenure => ?_) here
      rcases hstepped.event e he with hnone | ⟨call, here, hpays⟩
      · rw [hnone] at htenure
        cases htenure
      · exact InboundDemux.sessionId_ne_webId k call
          (Option.some.inj (htenure.symm.trans hpays.tenure))
    · rfl
  · exact fun k _ => hstepped.sinks (InboundDemux.sessionId_ne_webId k)
  · intro old hold hsome
    obtain rfl : task = old := Option.some.inj (hfind.symm.trans hold)
    rw [hconfig] at hsome
    cases hsome
  · intro hsome
    rw [show task.config = none from hconfig] at hsome
    cases hsome
  · intro id call channel hmem
    rcases Composition.mem_turn hmem with ⟨e, he, heq⟩ | heq
    · cases heq
      rcases hstepped.event _ he with hnone | ⟨call', here, hpays⟩
      · cases hnone
      · obtain ⟨rfl, rfl, hcall, -⟩ := hpays
        exact ⟨hcall, Or.inl rfl⟩
    · cases heq

/-! #### The loop -/

/-- **The loop goes on**: what has to be shown. Nobody comes who was not on his way. The steps of
the loop that hear of no event come down to it. -/
theorem Tidy.loop (ht : f.Tidy) {n' : Composition} (htasks : n'.tasks = f.host.tasks)
    (hshared : n'.shared = f.host.shared) (hstay : ∀ id, n'.mayStay id ≤ f.host.mayStay id)
    (hqueue : ∀ work ∈ n'.queue, work ∈ f.host.queue)
    (hcalls : ∀ id call, n'.hub.callOf id = some call → f.Bound id call) (hlisted : n'.hub.Listed) :
    Tidy { f with host := n' } := by
  have hbound : ∀ {id call}, f.Bound id call → Bound { f with host := n' } id call := by
    intro id call hb
    rwa [Bound, htasks]
  have hs' : Sorted { f with host := n' } := by
    refine ⟨hshared.symm ▸ ht.kept, ?_, ?_, ?_, ?_⟩
    · exact fun id task htask => ht.link id task (htasks ▸ htask)
    · exact fun id task htask => ht.request id task (htasks ▸ htask)
    · exact fun id task htask => ht.waits id task (htasks ▸ htask)
    · dsimp only
      rw [htasks]
      exact ht.cancelled
  refine ⟨hs', fun id task htask hconfig => ?_, fun id call channel hmem =>
    hbound (ht.joins id call channel (hqueue _ hmem)), fun id call hcall =>
    hbound (hcalls id call hcall), hlisted⟩
  dsimp only at htask
  rw [htasks] at htask
  obtain ⟨hscript, hended⟩ := ht.links id task htask hconfig
  refine ⟨hscript.mono (hstay id), ?_⟩
  dsimp only
  rw [hshared]
  exact fun hnone => ⟨(hended hnone).1, Bool.eq_false_of_le_false
    ((hended hnone).2 ▸ hstay id)⟩

/-- Who is here after an event was here, or joins. -/
theorem Tidy.bound_of_callOf_step (ht : f.Tidy) {now : DateTimeOffset} {e : ConversEvent}
    (hjoin : ∀ id call channel, e = .localJoin id call channel → f.Bound id call) {id call : Text}
    (hcall : (Hub.step f.host.hub (now, e)).callOf id = some call) : f.Bound id call := by
  by_cases htenure : e.tenure = some id
  · cases e with
    | localJoin sessionId callsign channel =>
      cases htenure
      have hb := hjoin _ _ _ rfl
      rw [Hub.callOf_localJoin, hb.1] at hcall
      split at hcall
      · cases hcall
        exact hb
      · exact ht.calls id call hcall
    | localLeave sessionId reason =>
      cases htenure
      rw [Hub.callOf, Hub.find?_localLeave, if_pos rfl] at hcall
      cases hcall
    | _ => cases htenure
  · rw [Hub.callOf_step htenure] at hcall
    exact ht.calls id call hcall

/-- **The hub hears of an event.** A join takes no id over. Here alone somebody comes or goes. -/
theorem Tidy.hear (ht : f.Tidy) {e : ConversEvent} {queue : List LoopWork} (now : DateTimeOffset)
    (log : ChatLog)
    (hstay : ∀ id here, queue.foldl (LoopWork.settles id) (e.settles id here) ≤
      f.host.queue.foldl (LoopWork.settles id) here)
    (hqueue : ∀ work ∈ queue, work ∈ f.host.queue)
    (hjoin : ∀ id call channel, e = .localJoin id call channel → f.Bound id call) :
    Tidy { f with host :=
      { f.host with hub := Hub.step f.host.hub (now, e), log := log, queue := queue } } := by
  refine ht.loop rfl rfl (fun id => ?_) hqueue (fun id call hcall =>
    ht.bound_of_callOf_step hjoin hcall) (ht.listed.step fun id call channel heq call' hcall' => ?_)
  · exact (Composition.foldl_settles_mono Hub.isHere_step_le).trans (hstay id _)
  · have hb := hjoin id call channel heq
    rw [hb.1]
    exact Bound.unique ht.toSorted (ht.calls id call' hcall') hb

/-! #### Any step -/

/-- Nothing but a `ConverseTerminalClosedException` is thrown into a session that may be here. -/
def IsHarmless (f : FaultyHost) : Label → Prop
  | .throws id => ∀ task config, f.host.link id = some (task, config) →
      task.script.writes = true → f.host.mayStay id = false
  | _ => True

/-- **One step keeps it.** The condition is used at one kind of step, where something is thrown. -/
theorem Tidy.change (ht : f.Tidy) (hc : Change f label f') (hh : f.IsHarmless label) :
    f'.Tidy := by
  have hs' := ht.toSorted.change hc
  cases hc with
  | idle => exact ht
  | @connected id call config hid hfree =>
    have hsink : (f.host.shared.register ⟨id, Callsigns.normalize call, true⟩).sinks.find? id =
        some ⟨id, Callsigns.normalize call, true⟩ :=
      (f.host.shared.sinks.find?_put _ _).trans (if_pos rfl)
    -- the link that comes is listed, and begins with its greeting
    refine ht.put hs' rfl rfl (List.append_nil _).symm (by simp) (fun k hk => ?_) ?_
      (fun _ => ⟨.greetAndJoin config, fun hnone => ?_⟩) (by simp)
    · exact (f.host.shared.sinks.find?_put _ _).trans (if_neg hk)
    · intro old hold
      cases hfree.symm.trans hold
    · cases hsink.symm.trans hnone
  | @steered label id task config script hlink hscript hwaits =>
    obtain ⟨hfind, hconfig, hopen⟩ := Composition.link_eq_some hlink
    refine ht.putLink hfind (hconfig ▸ rfl) hs'
      (hscript _ (ht.links id task hfind (hconfig ▸ rfl)).script) fun hnone => ?_
    rw [hnone] at hopen
    cases hopen
  | @thrown id task config hlink hwrites =>
    obtain ⟨hfind, hconfig, hopen⟩ := Composition.link_eq_some hlink
    have hstay := hh task config hlink hwrites
    refine ht.putLink hfind (hconfig ▸ rfl) hs' (hstay.symm ▸ .unregister) fun hnone => ?_
    rw [hnone] at hopen
    cases hopen
  | arrived hold hconfig hscript hwaiting =>
    exact ht.putRequest hs' (fun old h => (hold old h).1) hconfig
  | cancelled => exact ⟨hs', ht.links, ht.joins, ht.calls, ht.listed⟩
  | @stopped id task hfind hconfig hwaiting =>
    refine ht.putRequest hs' (fun old hold => ?_) hconfig
    obtain rfl : task.id = id := Table.key_of_find? hfind
    obtain rfl : task = old := Option.some.inj (hfind.symm.trans hold)
    exact hconfig
  | @refused id task script now hid hfind hturn hscript =>
    obtain ⟨old, hold, hconfig, -⟩ := ht.cancelled id hid
    obtain rfl : task = old := Option.some.inj (hfind.symm.trans hold)
    obtain rfl : task.id = id := Table.key_of_find? hfind
    refine ht.putRequest hs' (fun old hold => ?_) hconfig
    obtain rfl : task = old := Option.some.inj (hfind.symm.trans hold)
    exact hconfig
  | @turned id task now hfind hwaiting hid =>
    by_cases hconfig : task.config.isSome = true
    · exact ht.turnLink now hs' hfind hconfig
    · exact ht.turnRequest now hs' hfind (Option.not_isSome_iff_eq_none.mp hconfig)
  | @drained e queue links succeeds now log hqueue =>
    refine ht.hear now log (fun id here => ?_) (fun work hwork => ?_) fun id call channel heq => ?_
    · rw [hqueue]
      exact le_rfl
    · rw [hqueue]
      exact List.mem_cons_of_mem _ hwork
    · refine ht.joins id call channel ?_
      rw [hqueue, heq]
      exact List.mem_cons_self
  | @heard label e now log he =>
    refine ht.hear now log (fun id here => ?_) (fun _ hwork => hwork) fun id call channel heq => ?_
    · -- an event of another host settles nothing here
      rw [ConversEvent.settles_of_ne]
      cases e with
      | localJoin | localLeave => cases he
      | _ => exact nofun
    · rw [heq] at he
      cases he
  | @answered id task queue links succeeds now hqueue hfind hwaiting =>
    -- taking a snapshot off the queue settles nothing
    have hrest : Tidy { f with host := { f.host with queue := queue } } :=
      ht.loop rfl rfl (fun id => by rw [Composition.mayStay, Composition.mayStay, hqueue]; rfl)
        (fun work hwork => hqueue ▸ List.mem_cons_of_mem _ hwork) ht.calls ht.listed
    obtain ⟨next, hnext⟩ := ht.waits id task hfind hwaiting
    by_cases hconfig : task.config.isSome = true
    · have hl := hrest.links id task hfind hconfig
      refine hrest.putLink hfind hconfig hs' (hl.script.resume _ _) fun hnone => ?_
      rw [(hl.ended hnone).1] at hnext
      cases hnext
    · have hnone : task.config = none := Option.not_isSome_iff_eq_none.mp hconfig
      refine hrest.putRequest hs' (fun old hold => ?_) hnone
      obtain rfl : task.id = id := Table.key_of_find? hfind
      obtain rfl : task = old := Option.some.inj (hfind.symm.trans hold)
      exact hnone
  | @skipped id queue links succeeds now hqueue hwaiting =>
    exact ht.loop rfl rfl (fun id => by rw [Composition.mayStay, Composition.mayStay, hqueue]; rfl)
      (fun work hwork => hqueue ▸ List.mem_cons_of_mem _ hwork) ht.calls ht.listed

end Step

/-! ### Runs -/

/-- **Every session that has ended is signed off**: when the queue is drained it is gone, and so is
the entry of its callsign, if no other session has it. -/
def IsSignedOff (f : FaultyHost) : Prop :=
  ∀ id task, f.host.tasks.find? id = some task → task.config.isSome = true →
    f.host.shared.sinks.find? id = none → f.host.queue = [] →
      f.host.hub.sessions.find? id = none ∧
        ((∀ s, f.host.hub.Attached s → s.callsign ≠ task.call) →
          f.host.hub.users.find? (task.call, f.host.hub.hostName) = none)

theorem Tidy.isSignedOff {f : FaultyHost} (ht : f.Tidy) : f.IsSignedOff := by
  intro id task hfind hconfig hended hqueue
  have hgone := ((ht.links id task hfind hconfig).ended hended).2
  rw [Composition.mayStay, hqueue] at hgone
  refine ⟨Option.isSome_eq_false_iff.mp hgone |> Option.isNone_iff_eq_none.mp, fun hother => ?_⟩
  · rcases hu : f.host.hub.users.find? (task.call, f.host.hub.hostName) with _ | u
    · rfl
    · obtain ⟨s, hs, hcall⟩ := ht.listed task.call u hu
      exact absurd hcall (hother s hs)

/-- It is so at the start. -/
theorem tidy_new {hostName : Text} {store : Option ConversStore} {hub : Hub}
    (hnew : Hub.new hostName store = .ok hub) (options : WebChat.Options) (operatorSecret : Text)
    (log : ChatLog) : (new options operatorSecret hub log).Tidy := by
  refine ⟨sorted_new options operatorSecret hub log, ?_, ?_, ?_, Hub.listed_of_new hnew⟩
  · rintro id task hfind
    cases hfind
  · rintro id call channel hmem
    cases hmem
  · rintro id call hcall
    obtain ⟨s, hs, -⟩ := Option.map_eq_some_iff.mp hcall
    exact absurd (Hub.attached_of_find? hs) (Hub.not_attached_of_new hnew s)

/-- **In a run in which nothing else than `ConverseTerminalClosedException` is thrown into a session
that may be here, every session that has ended is signed off.** Every exit of a session submits the
leave first, and the queue keeps the order. -/
theorem isSignedOff_final {hostName : Text} {store : Option ConversStore} {hub : Hub}
    (hnew : Hub.new hostName store = .ok hub) (options : WebChat.Options) (operatorSecret : Text)
    (log : ChatLog) {labels : List Label} (hproper : ∀ label ∈ labels, label.IsProper)
    (hharmless : ∀ p ∈ Run.trace step (new options operatorSecret hub log) labels,
      p.1.IsHarmless p.2) :
    (∀ p ∈ Run.trace step (new options operatorSecret hub log) labels, p.1.IsSignedOff) ∧
      (Run.final step (new options operatorSecret hub log) labels).IsSignedOff := by
  obtain ⟨hall, hfinal⟩ := Run.invariant (tidy_new hnew options operatorSecret log) labels
    fun p hp ht => ht.change (change_step (hproper _ (Run.mem_of_mem_trace hp))) (hharmless p hp)
  exact ⟨fun p hp => (hall p hp).isSignedOff, hfinal.isSignedOff⟩

/-- A host without anybody. -/
def exampleStart : FaultyHost :=
  new ⟨"NODE".toList, 0, 50, []⟩ [] (Hub.fresh "NODE".toList) ChatLog.empty

/-- A radio link joins and quits, and the line that signs it off is thrown at. -/
def exampleQuit : List Label :=
  [.plain (.connect "rf-1".toList "M0ABC".toList ⟨"NODE".toList, 0, 0, false, []⟩),
    .plain (.proceed ⟨0, zero_ticks_le⟩ "rf-1".toList),
    .plain (.proceed ⟨0, zero_ticks_le⟩ "rf-1".toList),
    .plain (.proceed ⟨0, zero_ticks_le⟩ "rf-1".toList),
    .plain (.drain ⟨false, [], List.nodup_nil⟩ (fun _ => true) ⟨0, zero_ticks_le⟩),
    .plain (.drain ⟨false, [], List.nodup_nil⟩ (fun _ => true) ⟨0, zero_ticks_le⟩),
    .plain (.proceed ⟨0, zero_ticks_le⟩ "rf-1".toList),
    .plain (.proceed ⟨0, zero_ticks_le⟩ "rf-1".toList),
    .plain (.readLine "rf-1".toList (.quit [])), .plain (.proceed ⟨0, zero_ticks_le⟩ "rf-1".toList),
    .throws "rf-1".toList, .plain (.proceed ⟨0, zero_ticks_le⟩ "rf-1".toList),
    .plain (.drain ⟨false, [], List.nodup_nil⟩ (fun _ => true) ⟨0, zero_ticks_le⟩)]

/-- The task has ended on the exception, and the hub has no session of the link any more. -/
theorem isSignedOff_exampleQuit :
    (Run.final step exampleStart exampleQuit).IsSignedOff ∧
      (Run.final step exampleStart exampleQuit).host.shared.sinks.find? "rf-1".toList = none ∧
        (Run.final step exampleStart exampleQuit).host.queue = [] := by
  have hproper : ∀ label ∈ exampleQuit, label.IsProper := by
    simp only [exampleQuit, List.forall_mem_cons, Label.IsProper, true_and]
    refine ⟨⟨1, by decide⟩, ?_⟩
    simp
  have hgone : ((Run.trace step exampleStart exampleQuit).all fun p =>
      match p.2 with
      | .throws id => !p.1.host.mayStay id
      | _ => true) = true := by
    decide +kernel
  refine ⟨(isSignedOff_final (@Hub.new_none "NODE".toList (by decide)) ⟨"NODE".toList, 0, 50, []⟩
    [] ChatLog.empty hproper ?_).2, by decide +kernel⟩
  rintro ⟨f, label⟩ hp
  have hlabel := List.all_eq_true.mp hgone _ hp
  cases label with
  | throws id => exact fun _ _ _ _ => (Bool.not_eq_eq_eq_not.mp hlabel :)
  | plain | cancel => trivial

/-! ### A session that is thrown at -/

/-- **What is thrown into a session that is here leaves it here.** So the condition on a run is
needed at each of its steps. -/
theorem not_isSignedOff_of_throws {f : FaultyHost} (ht : f.Tidy) {id : Text} {task : SessionTask}
    {config : RfSessionConfig} (hlink : f.host.link id = some (task, config))
    (hwrites : task.script.writes = true) (hhere : f.host.hub.isHere id = true)
    (hqueue : f.host.queue = []) (now : DateTimeOffset) :
    ¬ (Run.final step f [.throws id, .plain (.proceed now id)]).IsSignedOff := by
  obtain ⟨hfind, hconfig, -⟩ := Composition.link_eq_some hlink
  obtain rfl : task.id = id := Table.key_of_find? hfind
  -- a task that writes does not wait, so it can go on
  have hwaiting : task.waiting = false := by
    rcases hw : task.waiting with _ | _
    · rfl
    · obtain ⟨next, hnext⟩ := ht.waits task.id task hfind hw
      rw [hnext] at hwrites
      cases hwrites
  set ended : SessionTask := { task with script := RfUserSession.unregister task.id } with hended
  -- what is thrown skips all of the script but the last step
  have hthrow : f.step (.throws task.id) = { f with host := f.host.putTask ended } := by
    rw [FaultyHost.step, Composition.throwAt, hlink]
    dsimp only
    rw [if_pos hwrites]
  have hput : (f.host.putTask ended).tasks.find? task.id = some ended :=
    (f.host.tasks.find?_put ended task.id).trans (if_pos rfl)
  have hproceed : (f.host.putTask ended).step (.proceed now task.id) =
      ((f.host.putTask ended).proceedTask now ended).1 := by
    rw [Composition.step, Composition.next, hput]
    dsimp only
    rw [if_neg (by rw [hended, hwaiting]; exact Bool.false_ne_true)]
  have hfinal : (Run.final FaultyHost.step f
      [.throws task.id, .plain (.proceed now task.id)]).host =
        ((f.host.putTask ended).proceedTask now ended).1 := by
    rw [Run.final_cons, Run.final_cons, Run.final_nil, hthrow]
    refine Eq.trans (b := if task.id ∈ f.cancelled then
      (f.host.putTask ended).proceedCancelled now task.id
      else (f.host.putTask ended).step (.proceed now task.id)) rfl ?_
    rw [Composition.proceedCancelled, hput]
    split
    · exact hproceed
    · exact hproceed
  have htask : ((f.host.putTask ended).proceedTask now ended).1.tasks.find? task.id =
      some { ended with script := .done, waiting := false } :=
    ((f.host.putTask ended).tasks.find?_put _ _).trans (if_pos rfl)
  have hsink : ((f.host.putTask ended).proceedTask now ended).1.shared.sinks.find? task.id = none :=
    (f.host.shared.sinks.find?_remove _ _).trans (if_pos rfl)
  have hempty : ((f.host.putTask ended).proceedTask now ended).1.queue = [] := by
    change f.host.queue ++ [] ++ [] = []
    rw [hqueue]
    rfl
  -- the session has ended, the queue is empty, and the hub still has it
  intro hsigned
  rw [IsSignedOff, hfinal] at hsigned
  have hgone := (hsigned task.id _ htask (hconfig ▸ rfl) hsink hempty).1
  rw [Hub.isHere, show f.host.hub.sessions.find? task.id = none from hgone] at hhere
  cases hhere

/-- A radio link has joined, and the line that tells it its channel is thrown at. -/
def exampleThrow : List Label :=
  [.plain (.connect "rf-1".toList "M0ABC".toList ⟨"NODE".toList, 0, 0, false, []⟩),
    .plain (.proceed ⟨0, zero_ticks_le⟩ "rf-1".toList),
    .plain (.proceed ⟨0, zero_ticks_le⟩ "rf-1".toList),
    .plain (.drain ⟨false, [], List.nodup_nil⟩ (fun _ => true) ⟨0, zero_ticks_le⟩),
    .plain (.proceed ⟨0, zero_ticks_le⟩ "rf-1".toList),
    .plain (.drain ⟨false, [], List.nodup_nil⟩ (fun _ => true) ⟨0, zero_ticks_le⟩),
    .throws "rf-1".toList, .plain (.proceed ⟨0, zero_ticks_le⟩ "rf-1".toList)]

/-- **It stays when its session has ended.** The task has ended, the queue is empty, and the hub
goes on listing the user. -/
theorem not_isSignedOff_exampleThrow :
    ¬ ∀ (hostName : Text) (store : Option ConversStore) (hub : Hub),
      Hub.new hostName store = .ok hub →
        ∀ (options : WebChat.Options) (operatorSecret : Text) (log : ChatLog) (labels : List Label),
          (∀ label ∈ labels, label.IsProper) →
            (Run.final step (new options operatorSecret hub log) labels).IsSignedOff := by
  intro hall
  have hproper : ∀ label ∈ exampleThrow, label.IsProper := by
    simp only [exampleThrow, List.forall_mem_cons, Label.IsProper, true_and]
    refine ⟨⟨1, by decide⟩, ?_⟩
    simp
  have hsigned := hall "NODE".toList none _ (@Hub.new_none "NODE".toList (by decide))
    ⟨"NODE".toList, 0, 50, []⟩ [] ChatLog.empty exampleThrow hproper
  set f := Run.final step exampleStart exampleThrow
  have hopen : ((f.host.tasks.find? "rf-1".toList).bind SessionTask.config).isSome = true ∧
      f.host.shared.sinks.find? "rf-1".toList = none ∧ f.host.queue = [] ∧
        f.host.hub.isHere "rf-1".toList = true := by
    decide +kernel
  obtain ⟨htask, hended, hqueue, hhere⟩ := hopen
  obtain ⟨config, hconfig⟩ := Option.isSome_iff_exists.mp htask
  obtain ⟨task, hfind, hconfig⟩ := Option.bind_eq_some_iff.mp hconfig
  have hgone := (hsigned "rf-1".toList task hfind (hconfig ▸ rfl) hended hqueue).1
  rw [Hub.isHere, show f.host.hub.sessions.find? "rf-1".toList = none from hgone] at hhere
  cases hhere

end FaultyHost

end Convers
