import Convers.Host.Mishaps
import Convers.Host.Reports

/-!
# The web sessions and the hub

A request changes the dictionary of the web sessions first and tells the hub after it, with a join
or a leave. In between it owes the hub a word (`Convers.Owes`), and other requests and the loop may
come in. When the queue is drained and no request is under way, the dictionary has the callsigns
whose sessions are here (`Convers.FaultyHost.agrees_final`), on three conditions: no request is
cancelled before it has told the hub, the last word of a callsign is the one of its last change, and
no join is refused. Then what the hub has been told of a callsign is what the dictionary has, as
soon as no request owes a word of it (`Convers.FaultyHost.Agreed`), and a page that asks for the
channel of its session at such a time, while the callsign is listed, finds the session here.
-/

namespace Convers

open WebChatSessions (webId webId_injective)

/-! ### What the hub is still to be told -/

/-- **The hub is to be told of a callsign**, that it has come or that it has gone, before anything
else is handed over. -/
inductive Owes (call : Text) : Bool → SessionScript → Prop where
  | act {here : Bool} {change : DateTimeOffset → Shared → Shared}
      {next : DateTimeOffset → Shared → SessionScript} (h : ∀ now w, Owes call here (next now w)) :
      Owes call here (.act change next)
  | join {sessionId : Text} (hid : sessionId = webId call) (callsign : Text) (channel : Int32)
      (next : SessionScript) : Owes call true (.submit (.localJoin sessionId callsign channel) next)
  | leave {sessionId : Text} (hid : sessionId = webId call) (reason : Text)
      (next : SessionScript) : Owes call false (.submit (.localLeave sessionId reason) next)

/-- A callsign may have a web session, or none. -/
theorem Shared.exists_listsWeb (call : Text) (here : Bool) :
    ∃ w : Shared, w.Kept ∧ w.listsWeb call = here := by
  have hk : Shared.empty.Kept := by
    rintro call ref href
    cases href
  rcases here with _ | _
  · exact ⟨Shared.empty, hk, rfl⟩
  · have hmoves : Shared.Moves (some (call, true)) Shared.empty _ :=
      .addWebSession hk rfl 0 ⟨0, zero_ticks_le⟩
    exact ⟨_, hmoves.kept, (hmoves.listed call true rfl).2⟩

/-- **A request owes what its script says it owes.** Whether it owes anything is so a matter of its
script, and not of the time or of what is shared. -/
theorem WebScript.owes_iff {owed : Option (Text × Bool)} {script : SessionScript}
    (h : WebScript owed script) {call : Text} {here : Bool} :
    Owes call here script ↔ owed = some (call, here) := by
  constructor
  · intro ho
    induction ho generalizing owed with
    | @act here change next hnext ih =>
      cases h with
      | act owed hmoves h =>
        -- the dictionary is still to be changed: it may be as it is to be already
        obtain ⟨w, hk, hlists⟩ := Shared.exists_listsWeb call here
        have howed := ih ⟨0, zero_ticks_le⟩ w (h ⟨0, zero_ticks_le⟩ w hk)
        have hlisted := ((hmoves ⟨0, zero_ticks_le⟩ w hk).listed call here howed).1
        rw [hlists] at hlisted
        exact absurd hlisted (Bool.self_ne_not here)
      | register hcall h => exact ih ⟨0, zero_ticks_le⟩ Shared.empty (.join hcall h)
    | join hid callsign channel next =>
      cases h with
      | submit hevent h => cases hevent
      | join hcall h => rw [webId_injective hid]
    | leave hid reason next =>
      cases h with
      | submit hevent h => cases hevent
      | leave h => rw [webId_injective hid]
  · rintro rfl
    cases h with
    | register hcall h => exact .act fun _ _ => .join rfl _ _ _
    | join hcall h => exact .join rfl _ _ _
    | leave h => exact .leave rfl _ _

/-! ### The conditions -/

/-- `EnsureJoinedAsync` has asked the hub for the channel of the session. Of the requests, only a
page calls it. -/
def SessionTask.AsksIfJoined (task : SessionTask) : Prop :=
  ∃ o pathPrefix operResult ref, task.script = .snapshot fun h w =>
    ChannelRequest.pageOf o pathPrefix task.call operResult
      (WebChatSessions.channelOf o.defaultChannel task.call ref h w)

namespace FaultyHost

variable (f : FaultyHost)

/-- A request owes the hub a word of a callsign. -/
def Owing (id call : Text) : Prop :=
  ∃ task here, f.host.tasks.find? id = some task ∧ task.config = none ∧ Owes call here task.script

/-- A request that tells the hub of a callsign is not cancelled, and the last word is the one of the
last change. -/
def TellsInTurn (id : Text) : Prop :=
  ∀ task e next call here, f.host.tasks.find? id = some task → task.config = none →
    task.script = .submit e next → Owes call here task.script →
      id ∉ f.cancelled ∧
        ((∀ other, other ≠ id → ¬ f.Owing other call) → f.host.shared.listsWeb call = here)

/-- When a page asks for the channel of its session, the callsign is listed, and no other request
has yet to tell the hub of it. -/
def AsksInTurn (id : Text) : Prop :=
  ∀ task, f.host.tasks.find? id = some task → task.config = none → task.AsksIfJoined →
    task.waiting = false → id ∉ f.cancelled →
      f.host.shared.listsWeb task.call = true ∧ ∀ other, other ≠ id → ¬ f.Owing other task.call

/-- The join of a web session is not refused, or the session is here. -/
def LetsIn : Prop :=
  ∀ call callsign channel queue,
    f.host.queue = .event (.localJoin (webId call) callsign channel) :: queue →
      f.host.hub.admits channel (Callsigns.normalize callsign) = true ∨
        f.host.hub.isHere (webId call) = true

/-- **A step at which none of this goes wrong.** -/
def IsOrderly : Label → Prop
  | .plain (.proceed _ id) => f.TellsInTurn id ∧ f.AsksInTurn id
  | .plain (.drain ..) => f.LetsIn
  | _ => True

/-- **The web sessions and the hub agree** when the queue is drained and no request is under way. -/
def Agrees : Prop :=
  f.host.queue = [] →
    (∀ id task, f.host.tasks.find? id = some task → task.config = none → task.script = .done) →
      ∀ call, f.host.shared.listsWeb call = true ↔ f.host.hub.isHere (webId call) = true

/-- **A session is here** when `EnsureJoinedAsync` is answered. -/
def FindsJoined : Label → Prop
  | .plain (.drain ..) => ∀ id task queue, f.host.queue = .snapshot id :: queue →
      f.host.tasks.find? id = some task → task.config = none → task.waiting = true →
        task.AsksIfJoined → f.host.hub.isHere (webId task.call) = true
  | _ => True

/-- **What an orderly run keeps.** -/
structure Agreed : Prop extends f.Sorted where
  /-- What the hub has been told of a callsign is what the dictionary has. -/
  told : ∀ call, (∀ id, ¬ f.Owing id call) →
    f.host.shared.listsWeb call = f.host.mayStay (webId call)
  /-- A snapshot is on the queue for who waits for it. -/
  counts : ∀ id, id ∉ f.cancelled → f.host.queue.count (.snapshot id) =
    if (f.host.tasks.find? id).any SessionTask.waiting then 1 else 0
  /-- By the time a page is answered, the session is here. -/
  asked : ∀ id task, f.host.tasks.find? id = some task → task.config = none →
    task.waiting = true → task.AsksIfJoined → ∃ before after,
      f.host.queue = before ++ .snapshot id :: after ∧
        before.foldl (LoopWork.settles (webId task.call)) (f.host.hub.isHere (webId task.call)) =
          true

section Step

variable {f} {f' : FaultyHost} {label : Label}

/-! ### A task -/

/-- **A task goes over to another state**, and hands something over: what has to be shown. The task
is `t` after it, and what is new on the queue is `works`. A step of a task comes down to it,
whatever kind of task it is. -/
theorem Agreed.put (ha : f.Agreed) {t : SessionTask} {n' : Composition} {cancelled : Finset Text}
    {works : List LoopWork} (hs' : Sorted ⟨n', cancelled⟩)
    (htasks : n'.tasks = f.host.tasks.put t) (hhub : n'.hub = f.host.hub)
    (hqueue : n'.queue = f.host.queue ++ works) (hcancelled : ∀ id ∈ f.cancelled, id ∈ cancelled)
    (htold : ∀ call, (∀ id, id ≠ t.id → ¬ f.Owing id call) →
      (∀ here, t.config = none → ¬ Owes call here t.script) →
        n'.shared.listsWeb call =
          works.foldl (LoopWork.settles (webId call)) (f.host.mayStay (webId call)))
    (hcounts : t.id ∉ cancelled → f.host.queue.count (.snapshot t.id) +
      works.count (.snapshot t.id) = if t.waiting then 1 else 0)
    (hothers : ∀ id, id ≠ t.id → .snapshot id ∉ works)
    (hasked : t.config = none → t.waiting = true → t.AsksIfJoined →
      works = [.snapshot t.id] ∧ f.host.mayStay (webId t.call) = true) :
    Agreed ⟨n', cancelled⟩ := by
  have hfind : ∀ id, n'.tasks.find? id = if id = t.id then some t else f.host.tasks.find? id := by
    intro id
    rw [htasks]
    exact f.host.tasks.find?_put t id
  refine ⟨hs', fun call hnone => ?_, fun id hid => ?_,
    fun id task htask hconfig hwaiting hasks => ?_⟩
  · -- who owes the hub a word of the callsign did so before, or is the task itself
    refine (htold call (fun id hne => ?_) fun here hconfig howes => ?_).trans
      (Composition.mayStay_append hhub hqueue).symm
    · rintro ⟨task, here, htask, howes⟩
      exact hnone id ⟨task, here, (hfind id).trans ((if_neg hne).trans htask), howes⟩
    · exact hnone t.id ⟨t, here, (hfind t.id).trans (if_pos rfl), hconfig, howes⟩
  · -- the snapshots of the task are counted, and those of the others are as they were
    dsimp only
    rw [hqueue, List.count_append, hfind]
    split
    · rename_i heq
      rw [heq]
      exact hcounts (heq ▸ hid)
    · rename_i hne
      rw [List.count_eq_zero_of_not_mem (hothers id hne)]
      exact ha.counts id fun hmem => hid (hcancelled id hmem)
  · dsimp only at htask ⊢
    rw [hqueue, hhub]
    rw [hfind] at htask
    split at htask
    · rename_i heq
      cases htask
      -- the snapshot that was just asked for is the last of the queue
      obtain ⟨rfl, hstay⟩ := hasked hconfig hwaiting hasks
      exact ⟨f.host.queue, [], by rw [heq], hstay⟩
    · obtain ⟨before, after, hsplit, hstay⟩ := ha.asked id task htask hconfig hwaiting hasks
      exact ⟨before, after ++ works, by rw [hsplit, List.append_assoc, List.cons_append], hstay⟩

/-- A radio link goes over to another script, or comes. -/
theorem Agreed.putLink (ha : f.Agreed) {t : SessionTask} {n' : Composition}
    (hs' : Sorted { f with host := n' }) (htasks : n'.tasks = f.host.tasks.put t)
    (hhub : n'.hub = f.host.hub) (hqueue : n'.queue = f.host.queue)
    (hsessionOf : n'.shared.sessionOf = f.host.shared.sessionOf) (hconfig : t.config.isSome = true)
    (hold : ∀ old, f.host.tasks.find? t.id = some old → old.config.isSome = true)
    (hwaiting : t.waiting = (f.host.tasks.find? t.id).any SessionTask.waiting) :
    Agreed { f with host := n' } := by
  refine ha.put hs' htasks hhub (hqueue.trans (List.append_nil _).symm) (fun _ hid => hid)
    (fun call hnone _ => ?_) (fun hid => ?_) (by simp) fun hnone => ?_
  · have hsame : n'.shared.listsWeb call = f.host.shared.listsWeb call := by
      rw [Shared.listsWeb, hsessionOf, Shared.listsWeb]
    refine hsame.trans (ha.told call fun id hid => ?_)
    by_cases heq : id = t.id
    · obtain ⟨old, here, hfind, hconfig', -⟩ := hid
      have hsome := hold old (heq ▸ hfind)
      rw [hconfig'] at hsome
      cases hsome
    · exact hnone id heq hid
  · rw [List.count_nil, Nat.add_zero, hwaiting]
    exact ha.counts t.id hid
  · rw [hnone] at hconfig
    cases hconfig

/-- A radio link is steered to another script, and waits if it did. -/
theorem Agreed.steer (ha : f.Agreed) {id : Text} {task : SessionTask} {config : RfSessionConfig}
    {script : SessionScript} (hlink : f.host.link id = some (task, config))
    (hs' : Sorted { f with host := f.host.putTask { task with script := script } }) :
    Agreed { f with host := f.host.putTask { task with script := script } } := by
  obtain ⟨hfind, hconfig, -⟩ := Composition.link_eq_some hlink
  obtain rfl : task.id = id := Table.key_of_find? hfind
  refine ha.putLink hs' rfl rfl rfl rfl (hconfig ▸ rfl) (fun old hold => ?_) ?_
  · obtain rfl : task = old := Option.some.inj (hfind.symm.trans hold)
    exact hconfig ▸ rfl
  · rw [show f.host.tasks.find? _ = some task from hfind]
    rfl

/-- A request that has told the hub what it owed goes over to another script. -/
theorem Agreed.putRequest (ha : f.Agreed) {t : SessionTask} {cancelled : Finset Text}
    (hs' : Sorted ⟨f.host.putTask t, cancelled⟩) (hcancelled : ∀ id ∈ f.cancelled, id ∈ cancelled)
    (hold : ∀ call, ¬ f.Owing t.id call) (hwaiting : t.waiting = false)
    (hcounts : t.id ∉ cancelled →
      (f.host.tasks.find? t.id).any SessionTask.waiting = false) :
    Agreed ⟨f.host.putTask t, cancelled⟩ := by
  refine ha.put hs' rfl rfl (List.append_nil _).symm hcancelled (fun call hnone _ => ?_)
    (fun hid => ?_) (by simp) fun _ hwaits => ?_
  · refine ha.told call fun id hid => ?_
    by_cases heq : id = t.id
    · exact hold call (heq ▸ hid)
    · exact hnone id heq hid
  · rw [List.count_nil, Nat.add_zero, hwaiting, ha.counts t.id fun hmem => hid (hcancelled _ hmem),
      hcounts hid]
  · cases hwaiting.symm.trans hwaits

/-- The snapshots that one step asks for. -/
theorem count_turn (event : Option ConversEvent) (asks : Bool) (taskId : Text) :
    (event.toList.map LoopWork.event ++
      if asks then [LoopWork.snapshot taskId] else []).count (.snapshot taskId) =
        if asks then 1 else 0 := by
  rcases event with _ | e
  · rcases asks with _ | _
    · rfl
    · simp
  · rcases asks with _ | _
    · rfl
    · simp

/-- Only for the task that takes the step. -/
theorem not_mem_turn {event : Option ConversEvent} {asks : Bool} {taskId id : Text}
    (hne : id ≠ taskId) :
    LoopWork.snapshot id ∉ event.toList.map LoopWork.event ++
      if asks then [LoopWork.snapshot taskId] else [] := by
  intro hmem
  rcases Composition.mem_turn hmem with ⟨e, -, heq⟩ | heq
  · cases heq
  · cases heq
    exact hne rfl

/-- A radio link takes its next step. -/
theorem Agreed.turnLink (ha : f.Agreed) {id : Text} {task : SessionTask} (now : DateTimeOffset)
    (hs' : Sorted { f with host := (f.host.proceedTask now task).1 })
    (hfind : f.host.tasks.find? id = some task) (hwaiting : task.waiting = false)
    (hconfig : task.config.isSome = true) :
    Agreed { f with host := (f.host.proceedTask now task).1 } := by
  obtain rfl : task.id = id := Table.key_of_find? hfind
  obtain ⟨⟨k, hk⟩, -, here, hscript⟩ := ha.link task.id task hfind hconfig
  obtain ⟨hevent, -, hshared⟩ := hscript.turn now f.host.shared
  refine ha.put hs' rfl rfl (List.append_assoc ..) (fun _ hid => hid) (fun call hnone _ => ?_)
    (fun hid => ?_) (fun id hne => not_mem_turn hne) fun hnone => ?_
  · have hlists : (f.host.proceedTask now task).1.shared.listsWeb call =
        f.host.shared.listsWeb call := by
      rcases hshared with heq | ⟨-, heq, -⟩
      · exact (congrArg (fun w : Shared => w.listsWeb call) heq :)
      · exact (congrArg (fun w : Shared => w.listsWeb call) heq :)
    rw [hlists, ha.told call fun id hid => ?_]
    · -- what a radio link hands over is of its own id, which is no web session's
      refine (Composition.foldl_settles_of_forall fun work hwork b => ?_).symm
      rcases Composition.mem_turn hwork with ⟨e, he, rfl⟩ | rfl
      · refine ConversEvent.settles_of_ne (fun htenure => ?_) b
        have hby := hevent e he
        cases e with
        | localJoin =>
          exact InboundDemux.sessionId_ne_webId k call
            (hk.symm.trans (hby.1.symm.trans (Option.some.inj htenure)))
        | localLeave =>
          exact InboundDemux.sessionId_ne_webId k call
            (hk.symm.trans ((hby : _ = _).symm.trans (Option.some.inj htenure)))
        | _ => cases htenure
      · rfl
    · by_cases heq : id = task.id
      · obtain ⟨old, here', hold, hnone', -⟩ := hid
        obtain rfl : task = old := Option.some.inj (hfind.symm.trans (heq ▸ hold))
        rw [hnone'] at hconfig
        cases hconfig
      · exact hnone id heq hid
  · rw [ha.counts task.id hid, hfind, Option.any_some, hwaiting, count_turn]
    exact Nat.zero_add _
  · rw [show task.config = none from hnone] at hconfig
    cases hconfig

/-- **A request takes its next step.** It is the only step that changes the dictionary, or hands
over what is owed. -/
theorem Agreed.turnRequest (ha : f.Agreed) {id : Text} {task : SessionTask} (now : DateTimeOffset)
    (hs' : Sorted { f with host := (f.host.proceedTask now task).1 })
    (hfind : f.host.tasks.find? id = some task) (hwaiting : task.waiting = false)
    (hconfig : task.config = none) (htells : f.TellsInTurn id) (hasks : f.AsksInTurn id)
    (hcancelled : id ∈ f.cancelled → (task.script.turn now f.host.shared).asks = false) :
    Agreed { f with host := (f.host.proceedTask now task).1 } := by
  obtain rfl : task.id = id := Table.key_of_find? hfind
  obtain ⟨owed, hscript⟩ := ha.request task.id task hfind hconfig
  obtain ⟨owed', hnext, hstepped⟩ := hscript.turn now ha.kept
  refine ha.put hs' rfl rfl (List.append_assoc ..) (fun _ hid => hid)
    (fun call hnone hnone' => ?_) (fun hid => ?_) (fun id hne => not_mem_turn hne)
    fun _ hwaits hjoined => ?_
  · -- nobody else owes the hub a word of the callsign, nor does this one after the step
    have hpaid : ∀ here, owed' ≠ some (call, here) := fun here heq =>
      hnone' here hconfig (hnext.owes_iff.mpr heq)
    have htold : (∀ here, owed ≠ some (call, here)) →
        f.host.shared.listsWeb call = f.host.mayStay (webId call) := by
      refine fun hquiet => ha.told call fun id hid => ?_
      by_cases heq : id = task.id
      · obtain ⟨old, here, hold, -, howes⟩ := hid
        obtain rfl : task = old := Option.some.inj (hfind.symm.trans (heq ▸ hold))
        exact hquiet here (hscript.owes_iff.mp howes)
      · exact hnone id heq hid
    rw [Composition.foldl_settles_turn]
    cases hstepped with
    | moved hevent hmoves =>
      refine (hmoves.same call hpaid).trans ((htold nofun).trans ?_)
      rcases he : (task.script.turn now f.host.shared).event with _ | e
      · rfl
      · have hne : e.tenure ≠ some (webId call) := by
          rw [hevent e he]
          exact nofun
        exact (ConversEvent.settles_of_ne hne _).symm
    | stayed hevent hmoves =>
      refine (hmoves.same call nofun).trans ((htold hpaid).trans ?_)
      rw [hevent]
      rfl
    | @paid call' here e hevent he hshared =>
      have hlists : (f.host.proceedTask now task).1.shared.listsWeb call =
          f.host.shared.listsWeb call := (congrArg (fun w : Shared => w.listsWeb call) hshared :)
      rw [hlists, hevent, Option.map_some, Option.getD_some]
      by_cases hcall : call = call'
      · -- this is the last word of the callsign
        obtain rfl := hcall
        have howes : Owes call here task.script := hscript.owes_iff.mpr rfl
        obtain ⟨next, hsubmit⟩ := Script.eq_submit_of_event hevent
        obtain ⟨-, hlast⟩ := htells task e next call here hfind hconfig hsubmit howes
        rw [hlast hnone, he.settles]
      · have hne : e.tenure ≠ some (webId call) := by
          rw [he.tenure]
          exact fun heq => hcall (webId_injective (Option.some.inj heq)).symm
        rw [ConversEvent.settles_of_ne hne]
        refine htold fun here' heq => hcall ?_
        cases heq
        rfl
  · rw [ha.counts task.id hid, hfind, Option.any_some, hwaiting, count_turn]
    exact Nat.zero_add _
  · obtain ⟨next, hsnapshot⟩ := Script.eq_snapshot_of_asks hwaits
    have hturn : task.script.turn now f.host.shared =
        ⟨f.host.shared, task.script, none, true, none, none⟩ := by
      rw [hsnapshot]
      rfl
    rw [hturn] at hjoined ⊢
    have hid : task.id ∉ f.cancelled := by
      intro hid
      have hno := hcancelled hid
      rw [hturn] at hno
      cases hno
    obtain ⟨hlists, hothers⟩ := hasks task hfind hconfig hjoined hwaiting hid
    -- who asks owes nothing, and nobody else does, so the hub has been told of the callsign
    have htold := ha.told task.call fun id howing => by
      by_cases heq : id = task.id
      · obtain ⟨old, here, hold, -, howes⟩ := howing
        obtain rfl : task = old := Option.some.inj (hfind.symm.trans (heq ▸ hold))
        rw [hsnapshot] at howes
        cases howes
      · exact hothers id heq howing
    exact ⟨rfl, htold.symm.trans hlists⟩

/-! ### The loop -/

/-- What waits on the queue behind an item that is taken off it. -/
theorem asked_of_cons {queue before after : List LoopWork} {work : LoopWork} {id : Text}
    (hsplit : work :: queue = before ++ .snapshot id :: after) (hne : work ≠ .snapshot id) :
    ∃ before', before = work :: before' ∧ queue = before' ++ .snapshot id :: after := by
  rcases before with _ | ⟨first, before⟩
  · exact absurd (List.cons.inj hsplit).1 hne
  · obtain ⟨rfl, hrest⟩ := List.cons.inj hsplit
    exact ⟨before, rfl, hrest⟩

/-- **The loop takes an event off its queue.** What the hub is told is so what it has, as no join is
refused. -/
theorem Agreed.drain (ha : f.Agreed) {e : ConversEvent} {queue : List LoopWork}
    (now : DateTimeOffset) (log : ChatLog) (hqueue : f.host.queue = .event e :: queue)
    (hlets : f.LetsIn) (hs' : Sorted { f with host :=
      { f.host with hub := Hub.step f.host.hub (now, e), log := log, queue := queue } }) :
    Agreed { f with host :=
      { f.host with hub := Hub.step f.host.hub (now, e), log := log, queue := queue } } := by
  have hhere : ∀ call, (Hub.step f.host.hub (now, e)).isHere (webId call) =
      e.settles (webId call) (f.host.hub.isHere (webId call)) := by
    refine fun call => Hub.isHere_step_eq fun callsign channel heq => ?_
    exact hlets call callsign channel queue (heq ▸ hqueue)
  have hne : ∀ id, LoopWork.event e ≠ .snapshot id := fun id => nofun
  refine ⟨hs', fun call hnone => ?_, fun id hid => ?_,
    fun id task hfind hconfig hwaiting hasks => ?_⟩
  · refine (ha.told call hnone).trans ?_
    rw [Composition.mayStay, Composition.mayStay, hqueue, hhere]
    rfl
  · have hcount := ha.counts id hid
    rw [hqueue, List.count_cons_of_ne (hne id)] at hcount
    exact hcount
  · obtain ⟨before, after, hsplit, hstay⟩ := ha.asked id task hfind hconfig hwaiting hasks
    rw [hqueue] at hsplit
    obtain ⟨before', rfl, hrest⟩ := asked_of_cons hsplit (hne id)
    refine ⟨before', after, hrest, ?_⟩
    dsimp only
    rw [hhere]
    exact hstay

/-- It hears of an event of another host. -/
theorem Agreed.hear (ha : f.Agreed) {e : ConversEvent} (now : DateTimeOffset) (log : ChatLog)
    (he : e.isLocal = false) (hs' : Sorted { f with host :=
      { f.host with hub := Hub.step f.host.hub (now, e), log := log } }) :
    Agreed { f with host := { f.host with hub := Hub.step f.host.hub (now, e), log := log } } := by
  have htenure : ∀ id, e.tenure ≠ some id := by
    intro id
    cases e with
    | localJoin | localLeave => cases he
    | _ => exact nofun
  have hhere : ∀ id, (Hub.step f.host.hub (now, e)).isHere id = f.host.hub.isHere id := by
    intro id
    rw [← Hub.isSome_callOf, Hub.callOf_step (htenure id), Hub.isSome_callOf]
  refine ⟨hs', fun call hnone => ?_, ha.counts, fun id task hfind hconfig hwaiting hasks => ?_⟩
  · refine (ha.told call hnone).trans ?_
    rw [Composition.mayStay, Composition.mayStay, hhere]
  · dsimp only
    rw [hhere]
    exact ha.asked id task hfind hconfig hwaiting hasks

/-- A snapshot is taken off the queue. -/
theorem Agreed.counts_of_cons (ha : f.Agreed) {id other : Text} {queue : List LoopWork}
    (hqueue : f.host.queue = .snapshot id :: queue) (hother : other ∉ f.cancelled) :
    queue.count (.snapshot other) + (if other = id then 1 else 0) =
      if (f.host.tasks.find? other).any SessionTask.waiting then 1 else 0 := by
  rw [← ha.counts other hother, hqueue, List.count_cons]
  refine congrArg _ ?_
  by_cases hne : other = id
  · simp [hne]
  · simp [hne, Ne.symm hne]

/-- **A snapshot comes.** Who waited goes on, and owes nothing at that moment. -/
theorem Agreed.answer (ha : f.Agreed) {id : Text} {task : SessionTask} {queue : List LoopWork}
    {script : SessionScript} (hqueue : f.host.queue = .snapshot id :: queue)
    (hfind : f.host.tasks.find? id = some task) (hwaiting : task.waiting = true)
    (hs' : Sorted { f with host := { f.host with
      queue := queue
      tasks := f.host.tasks.put { task with script := script, waiting := false } } }) :
    Agreed { f with host := { f.host with
      queue := queue
      tasks := f.host.tasks.put { task with script := script, waiting := false } } } := by
  obtain rfl : task.id = id := Table.key_of_find? hfind
  have hput : ∀ id, (f.host.tasks.put { task with script := script, waiting := false }).find? id =
      if id = task.id then some { task with script := script, waiting := false }
        else f.host.tasks.find? id := fun id => f.host.tasks.find?_put _ id
  refine ⟨hs', fun call hnone => ?_, fun id hid => ?_,
    fun id other hother hconfig hwaits hasks => ?_⟩
  · -- who waits for a snapshot owes nothing
    have htold : ∀ id, ¬ f.Owing id call := by
      rintro id ⟨other, here, hother, hconfig, howes⟩
      by_cases heq : id = task.id
      · obtain ⟨next, hnext⟩ := ha.waits task.id task hfind hwaiting
        obtain rfl : task = other := Option.some.inj (hfind.symm.trans (heq ▸ hother))
        rw [hnext] at howes
        cases howes
      · exact hnone id ⟨other, here, (hput id).trans ((if_neg heq).trans hother), hconfig, howes⟩
    refine (ha.told call htold).trans ?_
    rw [Composition.mayStay, Composition.mayStay, hqueue]
    rfl
  · have hcount := ha.counts_of_cons hqueue hid
    dsimp only
    rw [hput]
    split
    · rename_i heq
      rw [if_pos heq, heq, hfind, Option.any_some, hwaiting] at hcount
      rw [heq]
      -- the snapshot that came was the only one
      exact Nat.succ.inj hcount
    · rename_i hne
      rw [if_neg hne] at hcount
      exact hcount
  · dsimp only at hother ⊢
    rw [hput] at hother
    split at hother
    · cases hother
      cases hwaits
    · rename_i hne
      obtain ⟨before, after, hsplit, hstay⟩ := ha.asked id other hother hconfig hwaits hasks
      obtain ⟨before', rfl, hrest⟩ := asked_of_cons (hqueue ▸ hsplit) fun heq => hne (by
        cases heq
        rfl)
      exact ⟨before', after, hrest, hstay⟩

/-- Nobody waits for it any more. -/
theorem Agreed.skip (ha : f.Agreed) {id : Text} {queue : List LoopWork}
    (hqueue : f.host.queue = .snapshot id :: queue)
    (hwaiting : ∀ task, f.host.tasks.find? id = some task → task.waiting = false)
    (hs' : Sorted { f with host := { f.host with queue := queue } }) :
    Agreed { f with host := { f.host with queue := queue } } := by
  have hnobody : (f.host.tasks.find? id).any SessionTask.waiting = false := by
    rcases hfind : f.host.tasks.find? id with _ | task
    · rfl
    · exact hwaiting task hfind
  refine ⟨hs', fun call hnone => ?_, fun other hother => ?_,
    fun other task hfind hconfig hwaits hasks => ?_⟩
  · refine (ha.told call hnone).trans ?_
    rw [Composition.mayStay, Composition.mayStay, hqueue]
    rfl
  · have hcount := ha.counts_of_cons hqueue hother
    by_cases hne : other = id
    · rw [if_pos hne, hne, hnobody] at hcount
      cases hcount
    · rw [if_neg hne] at hcount
      exact hcount
  · obtain ⟨before, after, hsplit, hstay⟩ := ha.asked other task hfind hconfig hwaits hasks
    obtain ⟨before', rfl, hrest⟩ := asked_of_cons (hqueue ▸ hsplit) fun heq => by
      cases heq
      cases hwaits.symm.trans (hwaiting task hfind)
    exact ⟨before', after, hrest, hstay⟩

/-! ### Any step -/

/-- **One step keeps it.** There is one lemma above for each kind of step. -/
theorem Agreed.change (ha : f.Agreed) (hc : Change f label f') (ho : f.IsOrderly label) :
    f'.Agreed := by
  have hs' := ha.toSorted.change hc
  cases hc with
  | idle => exact ha
  | @connected id call config hid hfree =>
    refine ha.putLink hs' rfl rfl rfl rfl rfl (fun old hold => ?_) ?_
    · cases hfree.symm.trans hold
    · rw [show f.host.tasks.find? _ = none from hfree]
      rfl
  | steered hlink hscript hwaits => exact ha.steer hlink hs'
  | thrown hlink hwrites => exact ha.steer hlink hs'
  | @arrived label t hold hconfig hscript hwaiting =>
    refine ha.putRequest hs' (fun _ hid => hid) ?_ hwaiting fun _ => ?_
    · rintro call ⟨old, here, hfind, -, howes⟩
      rw [(hold old hfind).2] at howes
      cases howes
    · -- what was under the id before is done, so it does not wait
      rcases hfind : f.host.tasks.find? t.id with _ | old
      · rfl
      · refine ha.not_waiting hfind fun next hnext => ?_
        rw [(hold old hfind).2] at hnext
        cases hnext
  | cancelled =>
    exact ⟨hs', ha.told, fun id hid => ha.counts id fun hmem => hid (Finset.mem_insert_of_mem hmem),
      ha.asked⟩
  | @stopped id task hfind hconfig hwaiting =>
    obtain rfl : task.id = id := Table.key_of_find? hfind
    refine ha.putRequest hs' (fun _ hid => Finset.mem_insert_of_mem hid) ?_ rfl fun hid =>
      absurd (Finset.mem_insert_self _ _) hid
    rintro call ⟨old, here, hold, -, howes⟩
    obtain rfl : task = old := Option.some.inj (hfind.symm.trans hold)
    -- who waits owes nothing
    obtain ⟨next, hnext⟩ := ha.waits task.id task hfind hwaiting
    rw [hnext] at howes
    cases howes
  | @refused id task script now hid hfind hturn hscript =>
    obtain ⟨old, hold, hconfig, hwaiting⟩ := ha.cancelled id hid
    obtain rfl : task = old := Option.some.inj (hfind.symm.trans hold)
    obtain rfl : task.id = id := Table.key_of_find? hfind
    refine ha.putRequest hs' (fun _ hmem => hmem) ?_ hwaiting fun hnot => absurd hid hnot
    rintro call ⟨old, here, hold, -, howes⟩
    obtain rfl : task = old := Option.some.inj (hfind.symm.trans hold)
    -- what is refused is not what is owed, since a step that tells it is in turn
    rcases hturn with ⟨e, next, hsubmit⟩ | ⟨next, hsnapshot⟩
    · exact (ho.1 task e next call here hfind hconfig hsubmit howes).1 hid
    · rw [hsnapshot] at howes
      cases howes
  | @turned id task now hfind hwaiting hid =>
    by_cases hconfig : task.config.isSome = true
    · exact ha.turnLink now hs' hfind hwaiting hconfig
    · refine ha.turnRequest now hs' hfind hwaiting (Option.not_isSome_iff_eq_none.mp hconfig) ho.1
        ho.2 fun hmem => ?_
      rcases hasks : (task.script.turn now f.host.shared).asks with _ | _
      · rfl
      · obtain ⟨next, hnext⟩ := Script.eq_snapshot_of_asks hasks
        exact absurd hnext ((hid hmem).2 next)
  | drained links succeeds now log hqueue => exact ha.drain now log hqueue ho hs'
  | heard now log he => exact ha.hear now log he hs'
  | answered links succeeds now hqueue hfind hwaiting => exact ha.answer hqueue hfind hwaiting hs'
  | skipped links succeeds now hqueue hwaiting => exact ha.skip hqueue hwaiting hs'

end Step

/-! ### Runs -/

variable {f}

theorem Agreed.agrees (ha : f.Agreed) : f.Agrees := by
  intro hqueue hdone call
  have htold := ha.told call fun id => by
    rintro ⟨task, here, hfind, hconfig, howes⟩
    rw [hdone id task hfind hconfig] at howes
    cases howes
  rw [Composition.mayStay, hqueue] at htold
  rw [htold]
  rfl

theorem Agreed.findsJoined (ha : f.Agreed) (label : Label) : f.FindsJoined label := by
  cases label with
  | plain label =>
    cases label with
    | drain links succeeds now =>
      rintro id task queue hqueue hfind hconfig hwaiting hasks
      obtain ⟨before, after, hsplit, hstay⟩ := ha.asked id task hfind hconfig hwaiting hasks
      rcases before with _ | ⟨work, before⟩
      · exact hstay
      · -- the snapshot would be on the queue twice
        exfalso
        rw [hqueue] at hsplit
        obtain ⟨rfl, -⟩ := List.cons.inj hsplit
        have hcount := ha.counts id fun hid => by
          obtain ⟨other, hother, -, hnot⟩ := ha.cancelled id hid
          obtain rfl : task = other := Option.some.inj (hfind.symm.trans hother)
          cases hwaiting.symm.trans hnot
        rw [hqueue, hsplit, hfind, Option.any_some, hwaiting] at hcount
        simp at hcount
    | _ => trivial
  | throws | cancel => trivial

/-- It is so at the start, when there is no web session. -/
theorem agreed_new {hub : Hub} (hhub : ∀ call, hub.isHere (webId call) = false)
    (options : WebChat.Options) (operatorSecret : Text) (log : ChatLog) :
    (new options operatorSecret hub log).Agreed := by
  refine ⟨sorted_new options operatorSecret hub log, fun call _ => (hhub call).symm,
    fun id _ => rfl, ?_⟩
  rintro id task hfind
  cases hfind

/-- **In an orderly run the web sessions and the hub agree**, and who asks for a page finds his
session. The conditions are on the order of the steps, and each of them is broken by some run. -/
theorem agrees_final {hub : Hub} (hhub : ∀ call, hub.isHere (webId call) = false)
    (options : WebChat.Options) (operatorSecret : Text) (log : ChatLog) {labels : List Label}
    (hproper : ∀ label ∈ labels, label.IsProper)
    (horderly : ∀ p ∈ Run.trace step (new options operatorSecret hub log) labels,
      p.1.IsOrderly p.2) :
    (∀ p ∈ Run.trace step (new options operatorSecret hub log) labels,
      p.1.Agrees ∧ p.1.FindsJoined p.2) ∧
      (Run.final step (new options operatorSecret hub log) labels).Agrees := by
  obtain ⟨hall, hfinal⟩ := Run.invariant (agreed_new hhub options operatorSecret log) labels
    fun p hp ha => ha.change (change_step (hproper _ (Run.mem_of_mem_trace hp))) (horderly p hp)
  exact ⟨fun p hp => ⟨(hall p hp).agrees, (hall p hp).findsJoined p.2⟩, hfinal.agrees⟩

/-! ### A page -/

/-- A request for a page that shows the channel of the session, and what it takes. -/
def examplePage : List Label :=
  let go : Label := .plain (.proceed ⟨0, zero_ticks_le⟩ "req-1".toList)
  let loop : Label := .plain (.drain ⟨false, [], List.nodup_nil⟩ (fun _ => true) ⟨0, zero_ticks_le⟩)
  [.plain (.request "req-1".toList "M0ABC".toList [] (.channelView none none)), go, go, go, go,
    loop, go, loop, go, loop, go, go, loop, go]

theorem isProper_of_mem_examplePage : ∀ label ∈ examplePage, label.IsProper := by
  simp [examplePage, Label.IsProper]

/-- A channel that is open. -/
def exampleOpen : FaultyHost :=
  new ⟨"NODE".toList, 0, 50, []⟩ [] (Hub.fresh "NODE".toList) ChatLog.empty

theorem idleTimeout_ticks_le : WebChatSessions.idleTimeout ≤ 3155378975999999999 := by
  rw [WebChatSessions.idleTimeout]
  omega

/-- Requests that come in each other's way. The second page of M0ABC is asked for when the session
is listed but not registered, and is held up until the join is handed over. A quarter of an hour
later a page of G4XYZ sweeps the session, and M0ABC is back with a new one before the leave of the
old one is handed over. -/
def exampleRush : List Label :=
  let start : DateTimeOffset := ⟨0, zero_ticks_le⟩
  let late : DateTimeOffset := ⟨WebChatSessions.idleTimeout, idleTimeout_ticks_le⟩
  let page (id call : String) : Label :=
    .plain (.request id.toList call.toList [] (.channelView none none))
  let go (now : DateTimeOffset) (id : String) : Label := .plain (.proceed now id.toList)
  let loop : Label := .plain (.drain ⟨false, [], List.nodup_nil⟩ (fun _ => true) start)
  [page "req-1" "M0ABC", go start "req-1", go start "req-1", page "req-2" "M0ABC",
    go start "req-2", go start "req-2", go start "req-1", go start "req-1", go start "req-2",
    go start "req-1", go start "req-2", loop, loop, loop, go start "req-1", go start "req-2", loop,
    loop, go start "req-1", go start "req-2", go start "req-1", go start "req-2", loop, loop,
    go start "req-1", go start "req-2",
    page "req-3" "G4XYZ", go late "req-3", go late "req-3", page "req-4" "M0ABC", go late "req-4",
    go late "req-4", go late "req-4", go late "req-3", go late "req-4", go late "req-3",
    go late "req-3", go late "req-3", go late "req-3", go late "req-3", go late "req-4", loop, loop,
    loop, loop, loop, go late "req-3", go late "req-4", loop, loop, go late "req-3",
    go late "req-4", go late "req-3", go late "req-4", loop, loop, go late "req-3", go late "req-4"]

theorem isProper_of_mem_exampleRush : ∀ label ∈ exampleRush, label.IsProper := by
  simp [exampleRush, Label.IsProper]

/-- The session a script joins or leaves before it hands over anything else. -/
def nextSession : SessionScript → Option Text
  | .act _ next => nextSession (next ⟨0, zero_ticks_le⟩ Shared.empty)
  | .submit e _ => e.tenure
  | _ => none

theorem nextSession_of_owes {call : Text} {here : Bool} {script : SessionScript}
    (h : Owes call here script) : nextSession script = some (webId call) := by
  induction h with
  | act h ih => exact ih _ _
  | join hid callsign channel next => rw [nextSession, ConversEvent.tenure, hid]
  | leave hid reason next => rw [nextSession, ConversEvent.tenure, hid]

/-- Whether one of the other tasks is at a script. -/
def anyOther (f : FaultyHost) (id : Text) (p : SessionScript → Bool) : Bool :=
  f.host.tasks.records.any fun task => task.id ≠ id && task.config.isNone && p task.script

theorem anyOther_iff {f : FaultyHost} {id : Text} {p : SessionScript → Bool} :
    f.anyOther id p = true ↔ ∃ other task, other ≠ id ∧ f.host.tasks.find? other = some task ∧
      task.config = none ∧ p task.script = true := by
  rw [anyOther, List.any_eq_true]
  constructor
  · rintro ⟨task, hmem, h⟩
    simp only [Bool.and_eq_true, decide_eq_true_eq, Option.isNone_iff_eq_none] at h
    exact ⟨task.id, task, h.1.1, Table.mem_records.mp hmem, h.1.2, h.2⟩
  · rintro ⟨other, task, hne, hfind, hconfig, hp⟩
    obtain rfl : task.id = other := Table.key_of_find? hfind
    refine ⟨task, Table.mem_of_find? hfind, ?_⟩
    simp [hne, hconfig, hp]

/-- Whether a script hands over a join or a leave of a session at once. -/
def hands (sessionId : Text) : SessionScript → Bool
  | .submit e _ => e.tenure = some sessionId
  | _ => false

theorem exists_owes_of_hands {call : Text} {script : SessionScript}
    (h : hands (webId call) script = true) : ∃ here, Owes call here script := by
  cases script with
  | submit e next =>
    have htenure : e.tenure = some (webId call) := of_decide_eq_true h
    cases e with
    | localJoin => exact ⟨true, .join (Option.some.inj htenure) _ _ next⟩
    | localLeave => exact ⟨false, .leave (Option.some.inj htenure) _ next⟩
    | _ => cases htenure
  | _ => cases h

/-- Whether a step is orderly, as far as the next event of every task shows. -/
def exampleCheck (f : FaultyHost) : Label → Bool
  | .plain (.proceed _ id) =>
    decide (f.cancelled = ∅) && (f.host.tasks.find? id).all fun task =>
      match task.script with
      | .submit e _ => e.tenure.all fun sessionId =>
        f.anyOther id (hands sessionId) ||
          f.host.shared.listsWeb (sessionId.drop "web-".length) = e.settles sessionId false
      | .snapshot _ =>
        f.host.shared.listsWeb task.call &&
          !f.anyOther id (fun script => nextSession script = some (webId task.call))
      | _ => true
  | .plain (.drain ..) =>
    match f.host.queue with
    | .event (.localJoin _ callsign channel) :: _ =>
      f.host.hub.admits channel (Callsigns.normalize callsign)
    | _ => true
  | _ => true

theorem isOrderly_of_exampleCheck {f : FaultyHost} {label : Label}
    (h : exampleCheck f label = true) : f.IsOrderly label := by
  cases label with
  | plain label =>
    cases label with
    | proceed now id =>
      obtain ⟨hnone, hcheck⟩ := Bool.and_eq_true_iff.mp h
      have hid : id ∉ f.cancelled := by
        rw [of_decide_eq_true hnone]
        exact Finset.notMem_empty id
      constructor
      · -- a word is of what the dictionary has, or another request is about to say another
        rintro task e next call here hfind - hscript howes
        refine ⟨hid, fun hnobody => ?_⟩
        rw [hfind, Option.all_some, hscript] at hcheck
        dsimp only at hcheck
        have htenure : e.tenure = some (webId call) ∧ e.settles (webId call) false = here := by
          rw [hscript] at howes
          cases howes with
          | join heq => simp [ConversEvent.tenure, ConversEvent.settles, heq]
          | leave heq => simp [ConversEvent.tenure, ConversEvent.settles, heq]
        rw [htenure.1, Option.all_some, Bool.or_eq_true, decide_eq_true_eq, htenure.2] at hcheck
        rcases hcheck with hother | hlists
        · obtain ⟨other, task', hne, hfind', hconfig, hhands⟩ := anyOther_iff.mp hother
          obtain ⟨here', howes'⟩ := exists_owes_of_hands hhands
          exact absurd ⟨task', here', hfind', hconfig, howes'⟩ (hnobody other hne)
        · exact hlists
      · rintro task hfind - ⟨o, pathPrefix, operResult, ref, hscript⟩ - -
        rw [hfind, Option.all_some, hscript, Bool.and_eq_true, Bool.not_eq_true'] at hcheck
        refine ⟨hcheck.1, ?_⟩
        rintro other hne ⟨task', here, hfind', hconfig, howes⟩
        refine Bool.eq_false_iff.mp hcheck.2
          (anyOther_iff.mpr ⟨other, task', hne, hfind', hconfig, ?_⟩)
        exact decide_eq_true (nextSession_of_owes howes)
    | drain links succeeds now =>
      rintro call callsign channel queue hqueue
      rw [exampleCheck, hqueue] at h
      exact Or.inl h
    | _ => trivial
  | throws | cancel => trivial

/-- In the rush both callsigns end up here, with the web sessions they are listed with. -/
theorem agrees_exampleRush :
    ((∀ p ∈ Run.trace step exampleOpen exampleRush, p.1.Agrees ∧ p.1.FindsJoined p.2) ∧
      (Run.final step exampleOpen exampleRush).Agrees) ∧
        (Run.final step exampleOpen exampleRush).host.queue = [] ∧
          (Run.final step exampleOpen exampleRush).host.tasks.records.all (·.script.isDone) = true ∧
            ["M0ABC".toList, "G4XYZ".toList].all (fun call =>
              (Run.final step exampleOpen exampleRush).host.shared.listsWeb call) = true := by
  have hchecked : ((Run.trace step exampleOpen exampleRush).all fun p => exampleCheck p.1 p.2) =
      true := by
    decide +kernel
  exact ⟨agrees_final (fun _ => rfl) ⟨"NODE".toList, 0, 50, []⟩ [] ChatLog.empty
    isProper_of_mem_exampleRush fun p hp =>
      isOrderly_of_exampleCheck (List.all_eq_true.mp hchecked p hp), by decide +kernel⟩

/-- A channel by invitation. -/
def exampleInvited : FaultyHost :=
  new ⟨"NODE".toList, 9, 50, []⟩ [] ChannelRequest.exampleClosed ChatLog.empty

/-- **A callsign that is not let in has a web session all the same.** The entry is made before the
hub is asked, and kept whatever it answers. -/
theorem not_agrees_examplePage :
    ¬ ∀ (hub : Hub), (∀ call, hub.isHere (webId call) = false) →
      ∀ (options : WebChat.Options) (operatorSecret : Text) (log : ChatLog) (labels : List Label),
        (∀ label ∈ labels, label.IsProper) →
          (Run.final step (new options operatorSecret hub log) labels).Agrees := by
  intro hall
  have hhub : ∀ call, ChannelRequest.exampleClosed.isHere (webId call) = false := by
    intro call
    rw [Hub.isHere, Table.find?, show ChannelRequest.exampleClosed.sessions.records = [] by
      decide +kernel]
    rfl
  have hagrees := hall ChannelRequest.exampleClosed hhub ⟨"NODE".toList, 9, 50, []⟩ [] ChatLog.empty
    examplePage isProper_of_mem_examplePage
  change (Run.final step exampleInvited examplePage).Agrees at hagrees
  have hfinal : (Run.final step exampleInvited examplePage).host.queue = [] ∧
      (Run.final step exampleInvited examplePage).host.tasks.records.all (·.script.isDone) = true ∧
        (Run.final step exampleInvited examplePage).host.shared.listsWeb "M0ABC".toList = true ∧
          (Run.final step exampleInvited examplePage).host.hub.isHere (webId "M0ABC".toList) =
            false := by
    decide +kernel
  obtain ⟨hqueue, hdone, hlists, hhere⟩ := hfinal
  have hiff := hagrees hqueue (fun id task hfind _ => Script.eq_done_of_isDone
    (List.all_eq_true.mp hdone task (Table.mem_of_find? hfind))) "M0ABC".toList
  rw [hhere] at hiff
  cases hiff.mp hlists

end FaultyHost

end Convers
