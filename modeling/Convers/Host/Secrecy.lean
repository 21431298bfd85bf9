import Convers.Host.Retold

/-!
# What is said on an invite-only channel

Two runs of the host that differ in the texts said on a channel while it is for the invited only
(`Convers.TwoRuns`), and what they show a user who is not on it. The hub, the tasks and what they
share stay the same, and the two logs differ in those rows only (`Convers.Composition.Alike`): so
the terminals and every page but those of that channel are the same. A page of the channel shows the
rows of the log, whoever asks for it: the hub refuses the switch, but the request does not ask what
came of it. The two runs show the same as long as no such page has such a row
(`Convers.TwoRuns.shownTo_eq`).
-/

namespace Convers

/-- The same task, with another text in what it still has to say. -/
structure SessionTask.Alike (t u : SessionTask) : Prop where
  id : u.id = t.id
  call : u.call = t.call
  config : u.config = t.config
  script : Script.Alike ConversEvent.Retold t.script u.script
  waiting : u.waiting = t.waiting

/-- It goes over to another script. -/
theorem SessionTask.Alike.withScript {t u : SessionTask} (h : t.Alike u) {s s' : SessionScript}
    (hscript : Script.Alike ConversEvent.Retold s s') :
    SessionTask.Alike { t with script := s } { u with script := s' } :=
  ⟨h.id, h.call, h.config, hscript, h.waiting⟩

/-- The same item, with another text. -/
inductive LoopWork.Alike : LoopWork → LoopWork → Prop where
  | event {e e' : ConversEvent} (h : e.Retold e') : Alike (.event e) (.event e')
  | snapshot (taskId : Text) : Alike (.snapshot taskId) (.snapshot taskId)

namespace Composition

/-- The same label, with another text that somebody says. -/
inductive Label.Retold : Label → Label → Prop where
  | same (l : Label) : Retold l l
  | say (id : Text) {text text' : Text} (htext : text ≠ []) (htext' : text' ≠ []) :
    Retold (.readLine id (.say text)) (.readLine id (.say text'))
  | post (id call pathPrefix : Text) {text text' : Text} (htext : trim text ≠ [])
      (htext' : trim text' ≠ []) :
    Retold (.request id call pathPrefix (.say text)) (.request id call pathPrefix (.say text'))
  | inbound (links : HostLink.Links) (exceptPeerId : Option Text) (now : DateTimeOffset)
      {e e' : ConversEvent} (h : e.Retold e') :
    Retold (.inbound links exceptPeerId now e) (.inbound links exceptPeerId now e')

/-- The event that advances the hub. -/
def applied (n : Composition) : Label → Option ConversEvent
  | .drain .. =>
    match n.queue with
    | .event e :: _ => some e
    | _ => none
  | .inbound _ _ _ e => some e
  | _ => none

/-- The rows that a message said in confidence on `c` adds to the log. -/
def confides (c : Int32) (n : Composition) (l : Label) : List ℕ :=
  if (n.applied l).any (n.hub.isConfined c) then
    ((n.step l).log.rows.filter fun row => n.log.lastId < row.id).map (·.id)
  else []

/-- The user has no session on `c`. -/
def Outside (viewer : Text) (c : Int32) (n : Composition) : Prop :=
  ∀ s ∈ n.hub.sessions.records, ∀ sink, n.shared.sinks.find? s.id = some sink →
    sink.call = viewer → s.channel ≠ c

instance (viewer : Text) (c : Int32) (n : Composition) : Decidable (n.Outside viewer c) :=
  decidable_of_iff (∀ s ∈ n.hub.sessions.records,
    (n.shared.sinks.find? s.id).all fun sink => sink.call = viewer → s.channel ≠ c) <| by
    refine forall₂_congr fun s _ => ?_
    rcases n.shared.sinks.find? s.id with _ | sink
    · simp
    · rw [Option.all_some, decide_eq_true_eq]
      exact ⟨fun h sink' heq => Option.some.inj heq ▸ h, fun h => h sink rfl⟩

/-- The page that comes next, if one does, and the user it is for. -/
def pageOf (n : Composition) : Label → Option (Text × WebChat.ChannelView)
  | .proceed _ id => (n.tasks.find? id).bind fun task =>
    if task.waiting then none else task.script.reports.map (task.call, ·)
  | _ => none

/-- No page of `c` for the user shows one of the rows. -/
def Unread (viewer : Text) (c : Int32) (confided : List ℕ) (n : Composition) (l : Label) : Prop :=
  ∀ view, n.pageOf l = some (viewer, view) → view.channel = c →
    ∀ row ∈ n.scrollback view, row.id ∉ confided

instance (viewer : Text) (c : Int32) (confided : List ℕ) (n : Composition) (l : Label) :
    Decidable (n.Unread viewer c confided l) :=
  decidable_of_iff ((n.pageOf l).all fun page => page.1 = viewer → page.2.channel = c →
    ∀ row ∈ n.scrollback page.2, row.id ∉ confided) <| by
    rw [Unread]
    rcases n.pageOf l with _ | ⟨call, view⟩
    · exact ⟨fun _ => nofun, fun _ => rfl⟩
    · rw [Option.all_some, decide_eq_true_eq]
      constructor
      · intro h view' heq
        obtain ⟨rfl, rfl⟩ := Prod.mk.inj (Option.some.inj heq)
        exact h rfl
      · rintro h rfl
        exact h view rfl

/-- **The two runs**, with the rows that differ. -/
structure Alike (c : Int32) (confided : List ℕ) (m n : Composition) : Prop where
  options : n.options = m.options
  operatorSecret : n.operatorSecret = m.operatorSecret
  hub : n.hub = m.hub
  shared : n.shared = m.shared
  tasks : Table.Related SessionTask.Alike m.tasks n.tasks
  queue : List.Forall₂ LoopWork.Alike m.queue n.queue
  rows : List.Forall₂ (ChatLog.Differs fun row => row.id ∈ confided ∧ row.channel = some c)
    m.log.rows n.log.rows
  lastId : n.log.lastId = m.log.lastId

/-! ### A step of two runs -/

section Step

variable {c : Int32} {viewer : Text} {confided : List ℕ} {m n : Composition}

/-- Two steps that leave the runs alike and show the user the same. -/
structure Agree (c : Int32) (confided : List ℕ) (viewer : Text)
    (p q : Composition × List (Text × Text)) : Prop where
  alike : Alike c confided p.1 q.1
  shown : q.2.filter (·.1 = viewer) = p.2.filter (·.1 = viewer)

theorem Alike.mono {confided' : List ℕ} (h : Alike c confided m n) (hsub : confided ⊆ confided') :
    Alike c confided' m n :=
  { h with rows := h.rows.imp fun _ _ hrs => ⟨hrs.1, hrs.2.imp_left fun hr => ⟨hsub hr.1, hr.2⟩⟩ }

theorem Alike.quiet (h : Alike c confided m n) : Agree c confided viewer (m, []) (n, []) := ⟨h, rfl⟩

theorem id_of_alike (t u : SessionTask) (h : t.Alike u) : t.id = u.id := h.id.symm

theorem Alike.putTask (h : Alike c confided m n) {t u : SessionTask} (htu : t.Alike u) :
    Alike c confided (m.putTask t) (n.putTask u) :=
  { h with tasks := h.tasks.put id_of_alike htu }

/-- **The rows of a page differ** only if it is of the channel. It is the one place where the log is
read back to a user. -/
theorem Alike.scrollback (h : Alike c confided m n) (view : WebChat.ChannelView)
    (hunread : view.channel = c → ∀ row ∈ m.scrollback view, row.id ∉ confided) :
    n.scrollback view = m.scrollback view := by
  refine ChatLog.eq_of_forall₂ (ChatLog.forall₂_queryChatLog h.rows _ _ _ _) ?_
  rintro row hrow ⟨hid, hchannel⟩
  refine hunread ?_ row hrow hid
  have hof : row.channel = some view.channel := by
    have hmem := (List.mem_insertionSort _).mp (List.mem_of_mem_take hrow)
    simpa using (List.mem_filter.mp hmem).2
  exact Option.some.inj (hof.symm.trans hchannel)

/-- **A task takes its next step** in both runs. What it asks of the hub is the same, and so is what
it shows. -/
theorem Alike.proceedTask (h : Alike c confided m n) (now : DateTimeOffset) {t u : SessionTask}
    (htu : t.Alike u)
    (hunread : ∀ view, t.script.reports = some view → t.call = viewer → view.channel = c →
      ∀ row ∈ m.scrollback view, row.id ∉ confided) :
    Agree c confided viewer (m.proceedTask now t) (n.proceedTask now u) := by
  have hturn := htu.script.turn now m.shared
  have hreported := Script.reported_turn now m.shared t.script
  rw [Composition.proceedTask, Composition.proceedTask, h.shared]
  generalize t.script.turn now m.shared = turn at hturn hreported
  generalize u.script.turn now m.shared = turn' at hturn
  refine ⟨?_, ?_⟩
  · have hput := h.putTask (t := { t with script := turn.next, waiting := turn.asks })
      (u := { u with script := turn'.next, waiting := turn'.asks })
      ⟨htu.id, htu.call, htu.config, hturn.next, hturn.asks⟩
    refine { hput with shared := hturn.shared, queue := ?_ }
    refine List.rel_append (List.rel_append h.queue ?_) ?_
    · have hevent := hturn.event
      generalize turn.event = event at hevent
      generalize turn'.event = event' at hevent
      rcases hevent with he | _
      · exact .cons (.event he) .nil
      · exact .nil
    · rw [hturn.asks, htu.id]
      split
      · exact .cons (.snapshot t.id) .nil
      · exact .nil
  · dsimp only
    rw [hturn.written, hturn.reported, htu.call, hreported, List.filter_append, List.filter_append]
    refine congrArg _ ?_
    rcases hpage : t.script.reports with _ | view
    · rfl
    · rw [Option.toList_some, List.map_singleton, List.map_singleton]
      by_cases hviewer : t.call = viewer
      · rw [h.scrollback view fun hchannel => hunread view hpage hviewer hchannel]
      · rw [List.filter_cons_of_neg (by simpa using hviewer),
          List.filter_cons_of_neg (by simpa using hviewer)]

/-- The user is shown nothing of what is delivered to the sessions on `c`. -/
theorem Outside.filter_deliver (h : m.Outside viewer c) {actions : List ConversAction}
    (hactions : ∀ a ∈ actions, ∀ sessionId, ActionRenderer.targetSession a = some sessionId →
      ∃ s, m.hub.sessions.find? sessionId = some s ∧ s.channel = c) :
    (actions.flatMap m.shared.deliver).filter (·.1 = viewer) = [] := by
  rw [List.filter_eq_nil_iff]
  rintro line hline hviewer
  obtain ⟨a, ha, hline⟩ := List.mem_flatMap.mp hline
  rw [Shared.deliver] at hline
  split at hline
  · rename_i sink text hsink htext
    obtain ⟨sessionId, htarget, hfind⟩ := Option.bind_eq_some_iff.mp hsink
    obtain ⟨s, hs, hchannel⟩ := hactions a ha sessionId htarget
    obtain rfl := Table.key_of_find? hs
    split at hline
    · obtain rfl := List.mem_singleton.mp hline
      exact h s (Table.mem_of_find? hs) sink hfind (of_decide_eq_true hviewer) hchannel
    · cases hline
  · cases hline

/-- **The loop has advanced the hub** in both runs, by the same event or by one said in confidence.
The rows that are written for it differ in their texts and not in their numbers. -/
theorem Alike.carryOut (h : Alike c confided m n) (houtside : m.Outside viewer c)
    (now : DateTimeOffset) (hub : Hub) {effects effects' : List HostLink.Effect}
    (hturn : effects' = effects ∨ HostLink.InConfidence m.hub c effects effects' ∧
      ∀ row ∈ (m.carryOut now hub effects).1.log.rows, m.log.lastId < row.id → row.id ∈ confided) :
    Agree c confided viewer (m.carryOut now hub effects) (n.carryOut now hub effects') := by
  rcases hturn with rfl | ⟨hturn, hconfided⟩
  · obtain ⟨hrows, hlast⟩ := ChatLog.foldl_appendChatLog_differs now
      (effects'.filterMap ChatLogWriter.entryOf) h.rows h.lastId
    exact ⟨{ h with hub := rfl, rows := hrows, lastId := hlast }, by
      rw [Composition.carryOut, Composition.carryOut, h.shared]⟩
  · obtain ⟨⟨entry, entry', hentry, hentry', hretold, hchannel⟩, hdelivered⟩ := hturn
    refine ⟨?_, ?_⟩
    · rw [Composition.carryOut, ChatLogWriter.record, hentry] at hconfided
      rw [Composition.carryOut, Composition.carryOut, ChatLogWriter.record, ChatLogWriter.record,
        hentry, hentry']
      cases hretold with
      | none => exact { h with hub := rfl }
      | @some f g hretold =>
        have hnew : ∀ row ∈ (m.log.appendChatLog now f).rows, m.log.lastId < row.id →
            row.id ∈ confided ∧ row.channel = some c := by
          intro row hrow hnew
          refine ⟨hconfided row hrow hnew, ?_⟩
          obtain hold | rfl := ChatLog.mem_appendChatLog hrow
          · exact absurd hnew (m.log.le_lastId row hold).not_gt
          · exact hchannel f rfl
        obtain ⟨hrows, hlast⟩ := ChatLog.appendChatLog_differs h.rows h.lastId hretold (Or.inr hnew)
        exact { h with hub := rfl, rows := hrows, lastId := hlast }
    · rw [Composition.carryOut, Composition.carryOut, h.shared]
      dsimp only
      rw [houtside.filter_deliver fun a ha => hdelivered a (Or.inl ha),
        houtside.filter_deliver fun a ha => hdelivered a (Or.inr ha)]

theorem alike_self (script : SessionScript) : Script.Alike ConversEvent.Retold script script :=
  Script.Alike.refl .same script

/-- Scripts stay alike behind the sign-offs of idle sessions and the join of a new one. -/
theorem alike_getOrCreate {defaultChannel : Int32} {call : Text} {next next' : ℕ → SessionScript}
    (h : ∀ ref, Script.Alike ConversEvent.Retold (next ref) (next' ref)) :
    Script.Alike ConversEvent.Retold (WebChatSessions.getOrCreate defaultChannel call next)
      (WebChatSessions.getOrCreate defaultChannel call next') := by
  have hsweep : ∀ (now : DateTimeOffset) (sessions : List WebSession) {next next' : SessionScript},
      Script.Alike ConversEvent.Retold next next' → Script.Alike ConversEvent.Retold
        (WebChatSessions.sweep now sessions next) (WebChatSessions.sweep now sessions next') := by
    intro now sessions next next' h
    induction sessions with
    | nil => exact h
    | cons session sessions ih =>
      refine .act _ fun _ w => ?_
      split
      · exact .submit (.same _) (.act _ fun _ _ => ih)
      · exact ih
  refine .act _ fun now w => hsweep now _ (.act _ fun _ w => ?_)
  split
  · exact h _
  · exact .act _ fun _ _ => .submit (.same _) (h _)

/-- A radio link is open in both runs or in none. -/
theorem Alike.link (h : Alike c confided m n) (id : Text) :
    (m.link id = none ∧ n.link id = none) ∨
      ∃ t u config, m.link id = some (t, config) ∧ n.link id = some (u, config) ∧ t.Alike u := by
  rw [Composition.link, Composition.link, h.shared]
  rcases h.tasks.find? id_of_alike id with ⟨hm, hn⟩ | ⟨t, u, hm, hn, htu⟩
  · rw [hm, hn]
    exact Or.inl ⟨rfl, rfl⟩
  · rw [hm, hn, Option.bind_some, Option.bind_some, htu.config]
    split
    · rcases t.config with _ | config
      · exact Or.inl ⟨rfl, rfl⟩
      · exact Or.inr ⟨t, u, config, rfl, rfl, htu⟩
    · exact Or.inl ⟨rfl, rfl⟩

theorem Alike.connect (h : Alike c confided m n) (id call : Text) (config : RfSessionConfig) :
    Agree c confided viewer (m.next (.connect id call config))
      (n.next (.connect id call config)) := by
  rw [Composition.next, Composition.next]
  rcases h.tasks.find? id_of_alike id with ⟨hm, hn⟩ | ⟨t, u, hm, hn, htu⟩
  · rw [hm, hn]
    dsimp only
    rw [h.shared]
    exact ⟨{ h.putTask ⟨rfl, rfl, rfl, alike_self _, rfl⟩ with shared := rfl }, rfl⟩
  · rw [hm, hn]
    exact h.quiet

theorem Alike.readLine (h : Alike c confided m n) (id : Text) {intent intent' : ConsoleIntent}
    (hscript : ∀ config, Script.Alike ConversEvent.Retold (RfUserSession.handle config id intent)
      (RfUserSession.handle config id intent')) :
    Agree c confided viewer (m.next (.readLine id intent)) (n.next (.readLine id intent')) := by
  rw [Composition.next, Composition.next]
  rcases h.link id with ⟨hm, hn⟩ | ⟨t, u, config, hm, hn, htu⟩
  · rw [hm, hn]
    exact h.quiet
  · rw [hm, hn]
    dsimp only
    rw [htu.script.waits.1]
    split
    · exact (h.putTask (htu.withScript (hscript config))).quiet
    · exact h.quiet

theorem Alike.respond (h : Alike c confided m n) (id response : Text) :
    Agree c confided viewer (m.next (.respond id response)) (n.next (.respond id response)) := by
  rw [Composition.next, Composition.next]
  rcases h.link id with ⟨hm, hn⟩ | ⟨t, u, config, hm, hn, htu⟩
  · rw [hm, hn]
    exact h.quiet
  · rw [hm, hn]
    exact (h.putTask (htu.withScript (htu.script.answer response))).quiet

theorem Alike.close (h : Alike c confided m n) (id : Text) :
    Agree c confided viewer (m.next (.close id)) (n.next (.close id)) := by
  rw [Composition.next, Composition.next]
  rcases h.link id with ⟨hm, hn⟩ | ⟨t, u, config, hm, hn, htu⟩
  · rw [hm, hn]
    exact h.quiet
  · rw [hm, hn]
    dsimp only
    rw [htu.script.waits.1, htu.script.waits.2.1, htu.script.waits.2.2]
    split
    · exact (h.putTask (htu.withScript (alike_self _))).quiet
    · exact h.quiet

theorem Alike.request (h : Alike c confided m n) (id call pathPrefix : Text)
    {request request' : WebChat.Request}
    (hscript : ∀ options secret call, Script.Alike ConversEvent.Retold
      (WebChat.handle options secret pathPrefix call request)
      (WebChat.handle options secret pathPrefix call request')) :
    Agree c confided viewer (m.next (.request id call pathPrefix request))
      (n.next (.request id call pathPrefix request')) := by
  have hfree : n.isFree id = m.isFree id := by
    rw [isFree, isFree]
    rcases h.tasks.find? id_of_alike id with ⟨hm, hn⟩ | ⟨t, u, hm, hn, htu⟩
    · rw [hm, hn]
    · rw [hm, hn, Option.all_some, Option.all_some, htu.config, htu.script.waits.1]
  have htask : SessionTask.Alike
      ⟨id, Callsigns.normalize call, none, WebChat.handle m.options m.operatorSecret pathPrefix
        (Callsigns.normalize call) request, false⟩
      ⟨id, Callsigns.normalize call, none, WebChat.handle m.options m.operatorSecret pathPrefix
        (Callsigns.normalize call) request', false⟩ := ⟨rfl, rfl, rfl, hscript _ _ _, rfl⟩
  rw [Composition.next, Composition.next, hfree, h.options, h.operatorSecret]
  split
  · exact (h.putTask htask).quiet
  · exact h.quiet

theorem Alike.proceed (h : Alike c confided m n) (now : DateTimeOffset) (id : Text)
    (hunread : Unread viewer c confided m (.proceed now id)) :
    Agree c confided viewer (m.next (.proceed now id)) (n.next (.proceed now id)) := by
  rw [Composition.next, Composition.next]
  rcases h.tasks.find? id_of_alike id with ⟨hm, hn⟩ | ⟨t, u, hm, hn, htu⟩
  · rw [hm, hn]
    exact h.quiet
  · rw [hm, hn]
    dsimp only
    rw [htu.waiting]
    split
    · exact h.quiet
    · rename_i hwaiting
      refine h.proceedTask now htu fun view hview hcall => hunread view ?_
      rw [pageOf, hm, Option.bind_some, if_neg hwaiting, hview, ← hcall]
      rfl

/-- The rows a step confides, it marks. -/
theorem mem_confides (m : Composition) (l : Label)
    (hconfined : (m.applied l).any (m.hub.isConfined c) = true) :
    ∀ row ∈ (m.step l).log.rows, m.log.lastId < row.id → row.id ∈ m.confides c l := by
  intro row hrow hnew
  rw [confides, if_pos hconfined]
  exact List.mem_map_of_mem (List.mem_filter.mpr ⟨hrow, decide_eq_true hnew⟩)

/-- **The loop takes an item off its queue** in both runs. It is what a session has asked for
before, in this run and in the other. -/
theorem Alike.drain (h : Alike c confided m n) (houtside : m.Outside viewer c)
    (links : HostLink.Links) (succeeds : ℕ → Bool) (now : DateTimeOffset)
    (happlied : n.applied (.drain links succeeds now) = m.applied (.drain links succeeds now) ∨
      (m.applied (.drain links succeeds now)).any (m.hub.isConfined c) = true) :
    Agree c (confided ++ m.confides c (.drain links succeeds now)) viewer
      (m.next (.drain links succeeds now)) (n.next (.drain links succeeds now)) := by
  have hmono := h.mono (List.subset_append_left confided (m.confides c (.drain links succeeds now)))
  -- what the step writes in confidence is among the rows that may differ
  have hmark := m.mem_confides (c := c) (.drain links succeeds now)
  have hqueue := h.queue
  rw [step, next, drainQueue] at hmark
  rw [applied, applied] at happlied
  rw [next, next, drainQueue, drainQueue]
  generalize m.confides c (.drain links succeeds now) = new at hmono hmark ⊢
  rcases hm : m.queue with _ | ⟨work, queue⟩
  · rw [hm] at hqueue
    rw [List.forall₂_nil_left_iff.mp hqueue]
    exact hmono.quiet
  · rcases hn : n.queue with _ | ⟨work', queue'⟩
    · rw [hm, hn] at hqueue
      cases hqueue
    · rw [hm, hn] at hqueue
      rw [applied, hm] at hmark
      rw [hm, hn] at happlied
      obtain ⟨hwork, hrest⟩ := List.forall₂_cons.mp hqueue
      have hpopped : Alike c (confided ++ new) { m with queue := queue }
          { n with queue := queue' } := { hmono with queue := hrest }
      cases hwork with
      | @event e e' he =>
        dsimp only at hmark happlied ⊢
        rw [h.hub, HostLink.hub_drainLocalEvent, HostLink.hub_drainLocalEvent, Hub.step, Hub.step,
          (m.hub.advance_retold now he).1]
        refine hpopped.carryOut houtside now _ ?_
        -- two texts differ only where one is said in confidence
        by_cases hne : e' = e
        · rw [hne]
          exact Or.inl rfl
        · have hconfined : m.hub.isConfined c e = true :=
            happlied.resolve_left fun heq => hne (Option.some.inj heq)
          exact Or.inr ⟨HostLink.inConfidence_drainLocalEvent he hne hconfined,
            fun row hrow hnew => List.mem_append_right _ (hmark hconfined row hrow hnew)⟩
      | snapshot taskId =>
        dsimp only
        rcases h.tasks.find? id_of_alike taskId with ⟨hmt, hnt⟩ | ⟨t, u, hmt, hnt, htu⟩
        · rw [hmt, hnt]
          exact hpopped.quiet
        · rw [hmt, hnt]
          dsimp only
          rw [htu.waiting]
          split
          · -- both go on from the same hub, as that has no text in it
            have hscript : Script.Alike ConversEvent.Retold (t.script.resume m.hub m.shared)
                (u.script.resume n.hub n.shared) := by
              rw [h.hub, h.shared]
              exact htu.script.resume m.hub m.shared
            have hresumed : SessionTask.Alike
                { t with script := t.script.resume m.hub m.shared, waiting := false }
                { u with script := u.script.resume n.hub n.shared, waiting := false } :=
              ⟨htu.id, htu.call, htu.config, hscript, rfl⟩
            exact (hpopped.putTask hresumed).quiet
          · exact hpopped.quiet

/-- **The loop hears of an event of another host** in both runs. It was asked for by another hub,
where the text may have been another. -/
theorem Alike.inbound (h : Alike c confided m n) (houtside : m.Outside viewer c)
    (links : HostLink.Links) (exceptPeerId : Option Text) (now : DateTimeOffset)
    {e e' : ConversEvent} (he : e.Retold e') (happlied : e' = e ∨ m.hub.isConfined c e = true) :
    Agree c (confided ++ m.confides c (.inbound links exceptPeerId now e)) viewer
      (m.next (.inbound links exceptPeerId now e))
      (n.next (.inbound links exceptPeerId now e')) := by
  have hmono := h.mono (List.subset_append_left confided
    (m.confides c (.inbound links exceptPeerId now e)))
  have hmark : m.hub.isConfined c e = true → _ :=
    m.mem_confides (.inbound links exceptPeerId now e)
  rw [Composition.next, Composition.next, h.hub]
  dsimp only
  rw [HostLink.hub_applyEvents, HostLink.hub_applyEvents, (m.hub.advance_retold now he).1]
  refine hmono.carryOut houtside now _ ?_
  by_cases hne : e' = e
  · rw [hne]
    exact Or.inl rfl
  · have hconfined := happlied.resolve_left hne
    exact Or.inr ⟨HostLink.inConfidence_applyEvents he hne hconfined, fun row hrow hnew =>
      List.mem_append_right _ (hmark hconfined row hrow hnew)⟩

/-- **A step of both runs** leaves them alike and shows the user the same. There is one lemma above
for each kind of step, and the law is an induction by it. -/
theorem Alike.next (h : Alike c confided m n) {l l' : Label} (hl : l.Retold l')
    (happlied : n.applied l' = m.applied l ∨ (m.applied l).any (m.hub.isConfined c) = true)
    (houtside : m.Outside viewer c) (hunread : m.Unread viewer c confided l) :
    Agree c (confided ++ m.confides c l) viewer (m.next l) (n.next l') := by
  -- a label that says nothing to the hub confides nothing
  have hquiet : ∀ {l : Label} {p q}, m.applied l = none → Agree c confided viewer p q →
      Agree c (confided ++ m.confides c l) viewer p q := by
    intro l p q hl hagree
    rw [confides, hl]
    exact (List.append_nil confided).symm ▸ hagree
  cases hl with
  | same =>
    cases l with
    | connect id call config => exact hquiet (by rfl) (h.connect id call config)
    | readLine id intent => exact hquiet (by rfl) (h.readLine id fun _ => alike_self _)
    | respond id response => exact hquiet (by rfl) (h.respond id response)
    | close id => exact hquiet (by rfl) (h.close id)
    | request id call pathPrefix request =>
      exact hquiet (by rfl) (h.request id call pathPrefix fun _ _ _ => alike_self _)
    | proceed now id => exact hquiet (by rfl) (h.proceed now id hunread)
    | drain links succeeds now => exact h.drain houtside links succeeds now happlied
    | inbound links exceptPeerId now e =>
      exact h.inbound houtside links exceptPeerId now (.same e) (Or.inl rfl)
  | say id htext htext' =>
    refine hquiet (by rfl) (h.readLine id fun config => ?_)
    rw [RfUserSession.handle, RfUserSession.handle, if_neg (mt List.length_eq_zero_iff.mp htext),
      if_neg (mt List.length_eq_zero_iff.mp htext')]
    exact .submit (.say id htext htext') .done
  | post id call pathPrefix htext htext' =>
    refine hquiet (by rfl) (h.request id call pathPrefix fun options secret call => ?_)
    rw [WebChat.handle, WebChat.handle, WebChatSessions.say, WebChatSessions.say,
      if_neg (mt List.length_eq_zero_iff.mp htext), if_neg (mt List.length_eq_zero_iff.mp htext')]
    exact alike_getOrCreate fun _ => .submit (.say _ htext htext') (alike_self _)
  | inbound links exceptPeerId now he =>
    exact h.inbound houtside links exceptPeerId now he (happlied.imp_left Option.some.inj)

end Step

end Composition

/-- Two runs of the host, and the rows that were said in confidence on a channel. -/
structure TwoRuns where
  first : Composition
  second : Composition
  confided : List ℕ

namespace TwoRuns

/-- A step of both. -/
def step (c : Int32) (r : TwoRuns) (labels : Composition.Label × Composition.Label) : TwoRuns :=
  ⟨r.first.step labels.1, r.second.step labels.2, r.confided ++ r.first.confides c labels.1⟩

/-- Both have the same state, and nothing was said. -/
def new (n : Composition) : TwoRuns := ⟨n, n, []⟩

/-- The labels are the same but for texts, and what is said is the same or said in confidence. -/
structure DiffersOn (c : Int32) (r : TwoRuns) (l : Composition.Label × Composition.Label) :
    Prop where
  retold : l.1.Retold l.2
  applied : r.second.applied l.2 = r.first.applied l.1 ∨
    (r.first.applied l.1).any (r.first.hub.isConfined c) = true

variable {c : Int32} {viewer : Text} {r : TwoRuns}
  {labels : List (Composition.Label × Composition.Label)}

/-- Two runs that are alike stay so, as long as the user is outside and reads no such row. -/
theorem alike_run (halike : r.first.Alike c r.confided r.second)
    (hlabels : ∀ p ∈ Run.trace (step c) r labels, p.1.DiffersOn c p.2)
    (houtside : ∀ p ∈ Run.trace (step c) r labels, p.1.first.Outside viewer c)
    (hunread : ∀ p ∈ Run.trace (step c) r labels,
      p.1.first.Unread viewer c p.1.confided p.2.1) :
    (∀ p ∈ Run.trace (step c) r labels, p.1.first.Alike c p.1.confided p.1.second) ∧
      (Run.final (step c) r labels).first.Alike c (Run.final (step c) r labels).confided
        (Run.final (step c) r labels).second :=
  Run.invariant (I := fun r : TwoRuns => r.first.Alike c r.confided r.second) halike labels
    fun p hp halike => (halike.next (hlabels p hp).retold (hlabels p hp).applied (houtside p hp)
      (hunread p hp)).alike

theorem alike_new (n : Composition) : (new n).first.Alike c (new n).confided (new n).second where
  options := rfl
  operatorSecret := rfl
  hub := rfl
  shared := rfl
  tasks :=
    Table.Related.refl (fun t => ⟨rfl, rfl, rfl, Composition.alike_self t.script, rfl⟩) n.tasks
  queue := List.forall₂_same.mpr fun work _ => by
    cases work with
    | event e => exact .event (.same e)
    | snapshot taskId => exact .snapshot taskId
  rows := List.forall₂_same.mpr fun row _ => ChatLog.Differs.refl row
  lastId := rfl

/-- **What is said on a channel for the invited only stays there**, but for its log: two runs that
differ in the texts said on it show the same to a user who is on none of it, as long as no page of
the channel that is rendered for him has a row that was said so. It is a statement on pairs of runs,
so nothing that depends on a text can slip through by not being named. -/
theorem shownTo_eq (n : Composition)
    (hlabels : ∀ p ∈ Run.trace (step c) (new n) labels, p.1.DiffersOn c p.2)
    (houtside : ∀ p ∈ Run.trace (step c) (new n) labels, p.1.first.Outside viewer c)
    (hunread : ∀ p ∈ Run.trace (step c) (new n) labels,
      p.1.first.Unread viewer c p.1.confided p.2.1) :
    ∀ p ∈ Run.trace (step c) (new n) labels,
      p.1.second.shownTo viewer p.2.2 = p.1.first.shownTo viewer p.2.1 := by
  intro p hp
  have halike := (alike_run (alike_new n) hlabels houtside hunread).1 p hp
  have hagree := halike.next (hlabels p hp).retold (hlabels p hp).applied (houtside p hp)
    (hunread p hp)
  rw [Composition.shownTo, Composition.shownTo, hagree.shown]

/-! ### Two runs of an example -/

/-- Nobody is connected. -/
def exampleTile : Composition :=
  .new { nodeCallsign := "NODE".toList, defaultChannel := 3333, scrollbackRows := 50, style := [] }
    [] (Hub.fresh "NODE".toList) .empty

/-- Channel 7 becomes private, and a user of another host says something on it, in each run another
text. Then a user asks for the page of a channel: his session is registered and joins, the switch is
submitted, and the loop gets to what is on its queue. -/
def exampleSecret (channel : Int32) : List (Composition.Label × Composition.Label) :=
  let links : HostLink.Links := ⟨true, [], List.nodup_nil⟩
  let now := Hub.exampleMoment
  let say := fun text => Composition.Label.inbound links none now
    (.hostChannelMessage "m0abc".toList 7 text)
  let proceed := Composition.Label.proceed now "http-1".toList
  let drain := Composition.Label.drain links HostLink.allSucceed now
  let mode := Composition.Label.inbound links none now (.hostMode 7 "+p".toList)
  let request := Composition.Label.request "http-1".toList "m0xyz".toList []
    (.channelView (some channel) none)
  (mode, mode) :: (say "at noon".toList, say "never".toList) ::
    ((request :: (List.replicate 7 proceed ++ List.replicate 3 drain ++ List.replicate 2 proceed ++
      [drain, proceed])).map fun l => (l, l))

theorem retold_exampleSecret (channel : Int32) :
    ∀ l ∈ exampleSecret channel, l.1.Retold l.2 := by
  intro l hl
  rcases List.mem_cons.mp hl with rfl | hl
  · exact .same _
  · rcases List.mem_cons.mp hl with rfl | hl
    · exact .inbound _ _ _ (.message _ _ (by decide) (by decide))
    · obtain ⟨l, -, rfl⟩ := List.mem_map.mp hl
      exact .same l

/-- Whatever page the user asks for, the runs differ in what is said in confidence. -/
theorem differsOn_exampleSecret (channel : Int32)
    (happlied : ∀ p ∈ Run.trace (step 7) (new exampleTile) (exampleSecret channel),
      p.1.second.applied p.2.2 = p.1.first.applied p.2.1 ∨
        (p.1.first.applied p.2.1).any (p.1.first.hub.isConfined 7) = true) :
    ∀ p ∈ Run.trace (step 7) (new exampleTile) (exampleSecret channel), p.1.DiffersOn 7 p.2 :=
  fun p hp => ⟨retold_exampleSecret channel p.2 (Run.mem_of_mem_trace hp), happlied p hp⟩

/-- The page of another channel is the same in both runs. -/
theorem shownTo_exampleSecret :
    (Run.final (step 7) (new exampleTile) (exampleSecret 8)).confided = [1] ∧
      ∀ p ∈ Run.trace (step 7) (new exampleTile) (exampleSecret 8),
        p.1.second.shownTo "M0XYZ".toList p.2.2 = p.1.first.shownTo "M0XYZ".toList p.2.1 := by
  refine ⟨by decide +kernel, shownTo_eq exampleTile (differsOn_exampleSecret 8 ?_) ?_ ?_⟩
  · decide +kernel
  · decide +kernel
  · decide +kernel

/-- **A page of the channel tells what was said in confidence**: the hub has refused the user, and
the page has the text. The page is rendered for the channel that was asked for, and not for the one
he is on. -/
theorem not_shownTo_exampleSecret :
    (∀ p ∈ Run.trace (step 7) (new exampleTile) (exampleSecret 7), p.1.DiffersOn 7 p.2) ∧
      (∀ p ∈ Run.trace (step 7) (new exampleTile) (exampleSecret 7),
        p.1.first.Outside "M0XYZ".toList 7) ∧
      ∃ p ∈ Run.trace (step 7) (new exampleTile) (exampleSecret 7),
        p.1.second.shownTo "M0XYZ".toList p.2.2 ≠ p.1.first.shownTo "M0XYZ".toList p.2.1 := by
  refine ⟨differsOn_exampleSecret 7 ?_, ?_, ?_⟩
  · decide +kernel
  · decide +kernel
  · decide +kernel

end TwoRuns

end Convers
