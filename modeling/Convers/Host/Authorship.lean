import Convers.Host.SignOffs

/-!
# Who speaks

What a task hands to the loop is in the name of its own user: it is of the session of the link or of
the callsign of the request, and a join is under that callsign (`Convers.ConversEvent.May`). One
event alone is of another session, the leave with which any request sweeps out who was idle. So
nobody ever speaks as somebody else (`Convers.FaultyHost.speaksAsSelf_run`), whatever goes wrong in
a session.

The only event of a session that grants a right is handed over when its user has given the secret of
the host. So who has not, and is not named by another host, is no operator
(`Convers.FaultyHost.unprivileged_run`).
-/

namespace Convers

open WebChatSessions (webId)

namespace ConversEvent

/-- The event that leaves a web session that was idle. -/
def idleLeave (call : Text) : ConversEvent := .localLeave (webId call) "web session idle".toList

/-- An event that grants a right, or takes one. -/
def isGrant : ConversEvent → Bool
  | .localSetOperator .. => true
  | _ => false

/-- **What may be handed over** for a session and its callsign: an event of that session, which
joins under that callsign, and a grant if it is allowed. Anyone may leave for who was idle. -/
inductive May (id call : Text) (allowed : Prop) : ConversEvent → Prop where
  | own {e : ConversEvent} (hsession : e.sessionId? = some id)
      (hjoin : ∀ callsign channel, e = .localJoin id callsign channel → callsign = call)
      (hgrant : e.isGrant = true → allowed) : May id call allowed e
  | idle (other : Text) : May id call allowed (idleLeave other)

variable {id call : Text} {allowed : Prop} {e : ConversEvent}

/-- An event of the session that is no join and no grant. -/
theorem may_of_quiet (hsession : e.sessionId? = some id) (htenure : e.tenure = none)
    (hgrant : e.isGrant = false) : May id call allowed e := by
  refine .own hsession ?_ fun h => ?_
  · rintro callsign channel rfl
    cases htenure
  · rw [hgrant] at h
    cases h

theorem may_localJoin (channel : Int32) : May id call allowed (.localJoin id call channel) := by
  refine .own rfl ?_ ?_
  · rintro callsign channel' ⟨⟩
    rfl
  · rintro ⟨⟩

theorem may_localLeave (reason : Text) : May id call allowed (.localLeave id reason) := by
  refine .own rfl ?_ ?_
  · rintro callsign channel ⟨⟩
  · rintro ⟨⟩

theorem may_localSetOperator (channel : Int32) (grant : Bool) (hallowed : allowed) :
    May id call allowed (.localSetOperator id channel grant) := by
  refine .own rfl ?_ fun _ => hallowed
  rintro callsign channel' ⟨⟩

end ConversEvent

open ConversEvent

/-! ### Rights -/

namespace Hub

variable {h : Hub} {call : Text}

/-- **A callsign without rights**: it is an operator nowhere, and no session of it is. -/
structure Unprivileged (h : Hub) (call : Text) : Prop where
  rights : ∀ channel, h.opOn call channel = false
  flags : ∀ s, h.Attached s → s.callsign = call → s.isOperator = false

/-- An event that gives rights to a callsign, or takes them. -/
def Grants (h : Hub) (call : Text) : ConversEvent → Prop
  | .localSetOperator sessionId _ _ => h.callOf sessionId = some call
  | .hostOper user _ _ _ => Callsigns.normalize user = call
  | _ => False

theorem Unprivileged.of_roster {h' : Hub} (hu : h.Unprivileged call)
    (hroster : h'.roster = h.roster) : h'.Unprivileged call where
  rights channel := (opOn_of_roster hroster call channel).trans (hu.rights channel)
  flags s hs := hu.flags s (by rwa [Attached, sessions_of_roster hroster] at hs)

/-- A session is stored that has no flag, if it is of the callsign. -/
theorem Unprivileged.storeSession (hu : h.Unprivileged call) {s : LocalSession}
    (hs : s.callsign = call → s.isOperator = false) : (h.storeSession s).Unprivileged call where
  rights := hu.rights
  flags t ht := by
    rw [Attached, find?_sessions_storeSession] at ht
    split at ht
    · cases ht
      exact hs
    · exact hu.flags t ht

/-- A grant to another callsign is none. -/
theorem Unprivileged.grantOperator (hu : h.Unprivileged call) {user : Text}
    (hne : Callsigns.normalize call ≠ Callsigns.normalize user) (channel : Int32) (grant : Bool) :
    (h.grantOperator user channel grant).Unprivileged call where
  rights c := by
    rw [opOn_grantOperator, opOn_applyOperator_of_ne h hne]
    exact hu.rights c
  flags s hs hcall := by
    obtain ⟨t, ht, rfl⟩ := hs.of_grantOperator
    have hother : ¬Callsigns.equal t.callsign user = true := fun heq =>
      hne (hcall ▸ of_decide_eq_true heq)
    dsimp only
    rw [if_neg hother]
    exact hu.flags t ht hcall

theorem Unprivileged.recordInvite (hu : h.Unprivileged call) (user : Text) (channel : Int32) :
    (h.recordInvite user channel).Unprivileged call where
  rights c := by
    rw [recordInvite_eq]
    exact hu.rights c
  flags s hs := by
    rw [Attached, find?_sessions_recordInvite] at hs
    obtain ⟨t, ht, hst⟩ := Option.map_eq_some_iff.mp hs
    have hattached : h.Attached t := by
      rw [Attached, show t.id = s.id from Table.key_of_find? ht]
      exact ht
    split at hst
    · rw [← hst]
      exact hu.flags t hattached
    · rw [← hst]
      exact hu.flags t hattached

theorem Unprivileged.dropSession (hu : h.Unprivileged call) (s : LocalSession) :
    (h.dropSession s).Unprivileged call where
  rights := hu.rights
  flags t ht := by
    rw [Attached, find?_sessions_dropSession] at ht
    split at ht
    · cases ht
    · exact hu.flags t ht

/-- The users have no say. -/
theorem Unprivileged.withUsers (hu : h.Unprivileged call) (users : Table NetworkUser.key) :
    { h with users := users }.Unprivileged call := ⟨hu.rights, hu.flags⟩

/-- **Only a grant to a callsign gives it a right.** So it is enough to know who hands such an event
to the hub. -/
theorem Unprivileged.step (hu : h.Unprivileged call) (hcanon : h.Canonical)
    (hcall : Callsigns.normalize call = call) (now : DateTimeOffset) {e : ConversEvent}
    (hgrants : ¬h.Grants call e) : (step h (now, e)).Unprivileged call := by
  have hglobal : h.isGlobalOperator call = false :=
    (Bool.or_eq_false_iff.mp (hu.rights 0)).1
  cases rosterStep h now e with
  | quiet hroster => exact hu.of_roster hroster
  | @joined sessionId callsign channel hadm hroster =>
    refine .of_roster (hu.storeSession fun heq => ?_) hroster
    exact (congrArg h.isGlobalOperator heq).trans hglobal
  | @switched s channel hs hall hroster =>
    refine .of_roster (hu.storeSession fun heq => ?_) hroster
    exact (congrArg (h.opOn · channel) heq).trans (hu.rights channel)
  | retold s s' hs hretold hroster =>
    obtain ⟨personal, away, rfl⟩ := hretold
    refine .of_roster (hu.storeSession ?_) hroster
    exact hu.flags s hs
  | @left s reason hs hroster => exact .of_roster (hu.dropSession s) hroster
  | @authenticated s channel grant hs hroster =>
    refine .of_roster (hu.grantOperator (fun heq => hgrants ?_) channel grant) hroster
    rw [hcall, hcanon s hs] at heq
    rw [Grants, callOf, show h.sessions.find? s.id = some s from hs, heq]
    rfl
  | invited hs hroster | hostInvited hvalid hroster =>
    exact .of_roster (hu.recordInvite _ _) hroster
  | appeared entry hlists hkey hremote hchannel hflag hroster =>
    exact .of_roster (hu.withUsers _) hroster
  | vanished k hremote hroster => exact .of_roster (hu.withUsers _) hroster
  | described u u' hu' hkey hchannel hflag hroster => exact .of_roster (hu.withUsers _) hroster
  | @granted user host channel grant hvalid hnone hroster =>
    refine .of_roster (hu.grantOperator (fun heq => hgrants ?_) channel grant) hroster
    rw [hcall, Callsigns.normalize_normalize] at heq
    exact heq.symm
  | @flagged user host channel grant u hvalid hu' hroster =>
    have hne : Callsigns.normalize call ≠ Callsigns.normalize (Callsigns.normalize user) := by
      intro heq
      rw [hcall, Callsigns.normalize_normalize] at heq
      exact hgrants heq.symm
    exact .of_roster ((hu.grantOperator hne channel grant).withUsers _) hroster

/-- A new hub has no operators. -/
theorem unprivileged_of_new {hostName : Text} {store : Option ConversStore}
    (hnew : new hostName store = .ok h) (call : Text) : h.Unprivileged call where
  rights channel := by
    unfold new at hnew
    split at hnew
    · cases hnew
    · cases hnew
      rfl
  flags s hs := absurd hs (not_attached_of_new hnew s)

end Hub

/-! ### What a radio link hands over -/

namespace RfUserSession

variable {id call : Text} {allowed : Prop} {next : SessionScript}

/-- What is written does not matter. -/
theorem hands_tell (line : Text) (h : next.Hands (May id call allowed)) :
    (tell line next).Hands (May id call allowed) := h

theorem hands_currentChannel (config : RfSessionConfig) (sessionId : Text)
    {next : Int32 → SessionScript} (h : ∀ channel, (next channel).Hands (May id call allowed)) :
    (currentChannel config sessionId next).Hands (May id call allowed) := fun _ _ => h _

theorem hands_showTopic (channel : Int32) (announceNone : Bool)
    (h : next.Hands (May id call allowed)) :
    (showTopic channel announceNone next).Hands (May id call allowed) := by
  intro hub w
  dsimp only
  split
  · split
    · exact h
    · exact h
  · exact h

theorem hands_paged (pageLength : Int32) (sincePrompt : ℕ) (lines : List Text) :
    (paged pageLength sincePrompt lines).Hands (May id call allowed) := by
  induction lines generalizing sincePrompt with
  | nil => trivial
  | cons line lines ih =>
    rw [paged]
    refine hands_tell _ ?_
    split
    · refine hands_tell _ fun response => ?_
      dsimp only
      split
      · trivial
      · exact ih 0
    · exact ih _

theorem hands_greetAndJoin (config : RfSessionConfig) :
    (greetAndJoin config id call).Hands (May id call allowed) :=
  ⟨may_localJoin _, hands_showTopic _ _ trivial⟩

theorem hands_signOff (config : RfSessionConfig) (reason shown : Text) :
    (signOff config id reason shown).Hands (May id call allowed) :=
  ⟨may_localLeave _, fun _ _ => trivial⟩

theorem hands_drop : (drop id).Hands (May id call allowed) :=
  ⟨may_localLeave _, fun _ _ => trivial⟩

theorem hands_unregister : (unregister id).Hands (May id call allowed) := fun _ _ => trivial

/-- **A line of a link** is in the name of its user, and grants a right if it gives the secret. -/
theorem hands_handle (config : RfSessionConfig) (intent : ConsoleIntent)
    (hsecret : ∀ secret, intent = .oper secret → secret ≠ [] → secret = config.operatorSecret →
      allowed) : (handle config id intent).Hands (May id call allowed) := by
  cases intent with
  | empty => trivial
  | say text =>
    rw [handle]
    split
    · trivial
    · exact ⟨may_of_quiet rfl rfl rfl, trivial⟩
  | join channel =>
    rcases channel with _ | channel
    · rw [handle]
      refine hands_currentChannel _ _ fun _ => ?_
      trivial
    · exact ⟨may_of_quiet rfl rfl rfl, hands_showTopic _ _ trivial⟩
  | msg toUser text => exact ⟨may_of_quiet rfl rfl rfl, trivial⟩
  | topic text =>
    rw [handle]
    split
    · exact hands_currentChannel _ _ fun _ => hands_showTopic _ _ trivial
    · exact ⟨may_of_quiet rfl rfl rfl, trivial⟩
  | personal text | away text => exact ⟨may_of_quiet rfl rfl rfl, trivial⟩
  | mode channel options =>
    rw [handle, handleMode]
    refine hands_currentChannel _ _ fun current => ?_
    dsimp only
    split
    · exact fun _ _ => trivial
    · refine ⟨may_of_quiet rfl rfl rfl, ?_⟩
      split
      · exact fun _ _ => trivial
      · trivial
  | oper secret =>
    rw [handle, handleOper]
    split
    · trivial
    · rename_i hlength
      split
      · trivial
      · rename_i hright
        -- a grant is asked for only behind the comparison with the secret
        refine ⟨may_localSetOperator _ _ (hsecret secret rfl ?_ ?_), trivial⟩
        · rintro rfl
          exact hlength rfl
        · exact not_not.mp fun hne => hright (Or.inr hne)
  | who argument => exact fun _ _ => hands_paged _ _ _
  | invite user channel =>
    rcases channel with _ | channel
    · rw [handle, handleInvite]
      refine hands_currentChannel _ _ fun _ => ?_
      exact ⟨may_of_quiet rfl rfl rfl, trivial⟩
    · exact ⟨may_of_quiet rfl rfl rfl, trivial⟩
  | help subject => exact hands_paged _ _ _
  | unknown raw => trivial
  | quit reason => exact hands_signOff config reason reason
  | leave reason => exact hands_signOff config _ reason

end RfUserSession

/-! ### What a request hands over -/

namespace WebChatSessions

variable {call : Text} {allowed : Prop} {next : SessionScript}

/-- A sweep leaves for who was idle. -/
theorem hands_sweep {id : Text} (now : DateTimeOffset) (sessions : List WebSession)
    (h : next.Hands (May id call allowed)) :
    (sweep now sessions next).Hands (May id call allowed) := by
  induction sessions with
  | nil => exact h
  | cons session sessions ih =>
    intro now' w
    dsimp only
    split
    · exact ⟨.idle _, fun _ _ => ih⟩
    · exact ih

theorem hands_sweepIdle {id : Text} (h : next.Hands (May id call allowed)) :
    (sweepIdle next).Hands (May id call allowed) := fun _ _ => hands_sweep _ _ h

theorem hands_getOrCreate (defaultChannel : Int32) {next : ℕ → SessionScript}
    (h : ∀ ref, (next ref).Hands (May (webId call) call allowed)) :
    (getOrCreate defaultChannel call next).Hands (May (webId call) call allowed) := by
  refine hands_sweepIdle fun now w => ?_
  dsimp only
  split
  · exact h _
  · exact fun _ _ => ⟨may_localJoin _, h _⟩

theorem hands_ensureJoined (defaultChannel : Int32) {next : Int32 → SessionScript}
    (h : ∀ channel, (next channel).Hands (May (webId call) call allowed)) :
    (ensureJoined defaultChannel call next).Hands (May (webId call) call allowed) :=
  hands_getOrCreate _ fun _ _ _ => h _

theorem hands_currentChannel (defaultChannel : Int32) {next : Int32 → SessionScript}
    (h : ∀ channel, (next channel).Hands (May (webId call) call allowed)) :
    (currentChannel defaultChannel call next).Hands (May (webId call) call allowed) := by
  refine hands_sweepIdle fun now w => ?_
  dsimp only
  split
  · exact fun _ _ => h _
  · exact h _

theorem hands_joinChannel (defaultChannel channel : Int32)
    (h : next.Hands (May (webId call) call allowed)) :
    (joinChannel defaultChannel call channel next).Hands (May (webId call) call allowed) := by
  rw [joinChannel]
  split
  · exact h
  · exact hands_getOrCreate _ fun _ => ⟨may_of_quiet rfl rfl rfl, fun _ _ => h⟩

theorem hands_submit (defaultChannel : Int32) {event : ConversEvent}
    (hevent : May (webId call) call allowed event)
    (h : next.Hands (May (webId call) call allowed)) :
    (submit defaultChannel call event next).Hands (May (webId call) call allowed) :=
  hands_getOrCreate _ fun _ => ⟨hevent, h⟩

theorem hands_isOperator {next : Bool → SessionScript}
    (h : ∀ isOp, (next isOp).Hands (May (webId call) call allowed)) :
    (isOperator call next).Hands (May (webId call) call allowed) := by
  intro now w
  dsimp only
  split
  · exact h false
  · exact fun _ _ => h _

end WebChatSessions

namespace WebChat

open WebChatSessions

variable {call : Text} {allowed : Prop}

theorem hands_channelViewAsync (o : Options) (pathPrefix : Text) (requestedChannel : Option Int32)
    (operResult : Option Text) :
    (channelViewAsync o pathPrefix call requestedChannel operResult).Hands
      (May (webId call) call allowed) := by
  have hview (channel : Int32) : (Script.snapshot fun h _ =>
      isOperator call fun isOperator => .report
        { options := o, pathPrefix := pathPrefix, call := call, channel := channel,
          present := (h.getChannel channel).users, topic := (h.getChannel channel).topic,
          topicBy := (h.getChannel channel).topicSetBy, modes := (h.getChannel channel).modes,
          isOperator := isOperator, operResult := operResult } : SessionScript).Hands
      (May (webId call) call allowed) := by
    refine fun _ _ => hands_isOperator fun _ => ?_
    trivial
  rcases requestedChannel with _ | req
  · exact hands_ensureJoined _ hview
  · unfold channelViewAsync
    dsimp only
    split
    · exact hands_joinChannel _ _ (hview req)
    · exact hands_ensureJoined _ hview

/-- **A request** is in the name of its callsign, and grants a right if it gives the secret. -/
theorem hands_handle (o : Options) (operatorSecret pathPrefix : Text) (request : Request)
    (hsecret : ∀ secret, request = .oper secret → secret ≠ [] → secret = operatorSecret →
      allowed) :
    (handle o operatorSecret pathPrefix call request).Hands (May (webId call) call allowed) := by
  cases request with
  | channelView channel operResult => exact hands_channelViewAsync o pathPrefix channel operResult
  | who =>
    rw [handle, whoAsync]
    refine hands_currentChannel _ fun _ => ?_
    exact fun _ _ => trivial
  | say text =>
    rw [handle, WebChatSessions.say]
    split
    · trivial
    · exact hands_submit _ (may_of_quiet rfl rfl rfl) trivial
  | join channel =>
    rcases channel with _ | ch
    · trivial
    · rw [handle]
      split
      · exact hands_joinChannel _ _ trivial
      · trivial
  | topic topic | away text => exact hands_submit _ (may_of_quiet rfl rfl rfl) trivial
  | msg toUser text =>
    rw [handle, privateMessage]
    split
    · trivial
    · exact hands_submit _ (may_of_quiet rfl rfl rfl) trivial
  | mode options =>
    rw [handle, setMode]
    split
    · trivial
    · refine hands_ensureJoined _ fun _ => ?_
      exact ⟨may_of_quiet rfl rfl rfl, trivial⟩
  | oper secret =>
    rw [handle, tryOper]
    split
    · trivial
    · rename_i hright
      obtain ⟨hlength, heq⟩ := not_or.mp hright
      obtain rfl : secret = operatorSecret := not_not.mp heq
      refine hands_submit _ (may_localSetOperator _ _ (hsecret secret rfl ?_ rfl)) trivial
      rintro rfl
      exact hlength rfl

end WebChat

/-! ### What a run keeps -/

/-- The session a task is for. -/
def SessionTask.ownId (t : SessionTask) : Text := if t.config.isSome then t.id else webId t.call

namespace FaultyHost

variable {allowed : Text → Prop} {f : FaultyHost} {label : Label}

/-- **What every run keeps**: what a task hands over is in the name of its user, and so is what
waits on the queue; an id of the hub is of the user it goes with. -/
structure Vouched (allowed : Text → Prop) (f : FaultyHost) : Prop where
  scripts : ∀ id task, f.host.tasks.find? id = some task →
    Callsigns.normalize task.call = task.call ∧
    task.script.Hands (May task.ownId task.call (allowed task.call))
  queue : ∀ e, .event e ∈ f.host.queue →
    ∃ id call, f.Bound id call ∧ May id call (allowed call) e
  calls : ∀ id call, f.host.hub.callOf id = some call → f.Bound id call

/-- A task is for a session of its callsign. -/
theorem bound_ownId {task : SessionTask} (hfind : f.host.tasks.find? task.id = some task)
    (hcall : Callsigns.normalize task.call = task.call) : f.Bound task.ownId task.call := by
  refine ⟨hcall, ?_⟩
  rw [SessionTask.ownId]
  split
  · rename_i hconfig
    exact Or.inr ⟨task, hfind, hconfig, rfl⟩
  · exact Or.inl rfl

/-- **A task goes over to another state**, and may hand something over: what has to be shown. The
task is `t` after it. A step of a task comes down to the one event it may hand over. -/
theorem Vouched.put (hv : f.Vouched allowed) {t : SessionTask} {n' : Composition}
    {cancelled : Finset Text} (htasks : n'.tasks = f.host.tasks.put t) (hhub : n'.hub = f.host.hub)
    (hqueue : ∀ e, .event e ∈ n'.queue →
      .event e ∈ f.host.queue ∨ May t.ownId t.call (allowed t.call) e)
    (hold : ∀ old, f.host.tasks.find? t.id = some old → old.config.isSome = true →
      t.config.isSome = true ∧ t.call = old.call)
    (hcall : Callsigns.normalize t.call = t.call)
    (hscript : t.script.Hands (May t.ownId t.call (allowed t.call))) :
    Vouched allowed ⟨n', cancelled⟩ := by
  have hfind : ∀ id, n'.tasks.find? id = if id = t.id then some t else f.host.tasks.find? id := by
    intro id
    rw [htasks]
    exact f.host.tasks.find?_put t id
  have hself : n'.tasks.find? t.id = some t := by rw [hfind, if_pos rfl]
  have hbound {id call : Text} (hb : f.Bound id call) : Bound ⟨n', cancelled⟩ id call := by
    refine ⟨hb.1, hb.2.imp_right ?_⟩
    rintro ⟨old, hfound, hconfig, rfl⟩
    by_cases hid : id = t.id
    · subst hid
      obtain ⟨hconfig', hsame⟩ := hold old hfound hconfig
      exact ⟨t, hself, hconfig', hsame⟩
    · exact ⟨old, by dsimp only; rw [hfind, if_neg hid, hfound], hconfig, rfl⟩
  refine ⟨fun id task htask => ?_, fun e he => ?_, fun id call hcallOf => ?_⟩
  · dsimp only at htask
    rw [hfind] at htask
    split at htask
    · cases htask
      exact ⟨hcall, hscript⟩
    · exact hv.scripts id task htask
  · rcases hqueue e he with hbefore | hmay
    · obtain ⟨id, call, hb, hmay⟩ := hv.queue e hbefore
      exact ⟨id, call, hbound hb, hmay⟩
    · exact ⟨t.ownId, t.call, bound_ownId (f := ⟨n', cancelled⟩) hself hcall, hmay⟩
  · dsimp only at hcallOf
    rw [hhub] at hcallOf
    exact hbound (hv.calls id call hcallOf)

/-- A task goes over to another script of its own. -/
theorem Vouched.putScript (hv : f.Vouched allowed) {id : Text} {task : SessionTask}
    (hfind : f.host.tasks.find? id = some task) {script : SessionScript} {waiting : Bool}
    {n' : Composition} {cancelled : Finset Text}
    (htasks : n'.tasks = f.host.tasks.put { task with script := script, waiting := waiting })
    (hhub : n'.hub = f.host.hub)
    (hqueue : ∀ e, .event e ∈ n'.queue →
      .event e ∈ f.host.queue ∨ May task.ownId task.call (allowed task.call) e)
    (hscript : script.Hands (May task.ownId task.call (allowed task.call))) :
    Vouched allowed ⟨n', cancelled⟩ := by
  obtain rfl : task.id = id := Table.key_of_find? hfind
  refine hv.put htasks hhub hqueue (fun old hold hconfig => ?_)
    (hv.scripts task.id task hfind).1 hscript
  obtain rfl : task = old := Option.some.inj (hfind.symm.trans hold)
  exact ⟨hconfig, rfl⟩

/-- **The hub hears of an event** that is in somebody's name, or of another host. The sessions that
are attached after it are those of callsigns that were vouched for. -/
theorem Vouched.hear (hv : f.Vouched allowed) {e : ConversEvent} {n' : Composition}
    (now : DateTimeOffset) (htasks : n'.tasks = f.host.tasks)
    (hhub : n'.hub = Hub.step f.host.hub (now, e))
    (hqueue : ∀ work ∈ n'.queue, work ∈ f.host.queue)
    (hevent : e.isLocal = true → .event e ∈ f.host.queue) :
    Vouched allowed { f with host := n' } := by
  have hbound {id call : Text} (hb : f.Bound id call) : Bound { f with host := n' } id call := by
    rwa [Bound, htasks]
  refine ⟨fun id task htask => hv.scripts id task (htasks ▸ htask), fun e' he' => ?_,
    fun id call hcall => hbound ?_⟩
  · obtain ⟨id, call, hb, hmay⟩ := hv.queue e' (hqueue _ he')
    exact ⟨id, call, hbound hb, hmay⟩
  dsimp only at hcall
  rw [hhub] at hcall
  by_cases htenure : e.tenure = some id
  · cases e with
    | localJoin sessionId callsign channel =>
      cases htenure
      rw [Hub.callOf_localJoin] at hcall
      split at hcall
      · obtain ⟨id', call', hb, hmay⟩ := hv.queue _ (hevent rfl)
        cases hmay with
        | own hsession hjoin =>
          cases hsession
          obtain rfl := hjoin callsign channel rfl
          rw [hb.1] at hcall
          cases hcall
          exact hb
      · exact hv.calls _ call hcall
    | localLeave sessionId reason =>
      cases htenure
      rw [Hub.callOf, Hub.find?_localLeave, if_pos rfl] at hcall
      cases hcall
    | _ => cases htenure
  · rw [Hub.callOf_step htenure] at hcall
    exact hv.calls id call hcall

/-! ### One step -/

/-- **A user gives the secret** of the host, on a link or in a form. -/
def givesSecret (f : FaultyHost) (call : Text) : Label → Bool
  | .plain (.readLine id (.oper secret)) => (f.host.link id).any fun p =>
      decide (p.1.call = call ∧ secret ≠ [] ∧ secret = p.2.operatorSecret)
  | .plain (.request _ callsign _ (.oper secret)) =>
    decide (Callsigns.normalize callsign = call ∧ secret ≠ [] ∧ secret = f.host.operatorSecret)
  | _ => false

/-- A task takes its next step. -/
theorem Vouched.turn (hv : f.Vouched allowed) (now : DateTimeOffset) (id : Text) :
    Vouched allowed { f with host := f.host.step (.proceed now id) } := by
  rw [Composition.step, Composition.next]
  split
  · rename_i task hfind
    split
    · exact hv
    · obtain ⟨hevent, hnext⟩ := (hv.scripts id task hfind).2.turn now f.host.shared
      refine hv.putScript hfind rfl rfl (fun e he => ?_) hnext
      rcases List.mem_append.mp he with he | he
      · rcases List.mem_append.mp he with he | he
        · exact Or.inl he
        · obtain ⟨e', he', heq⟩ := List.mem_map.mp he
          cases heq
          exact Or.inr (hevent e (Option.mem_toList.mp he'))
      · split at he
        · cases List.mem_singleton.mp he
        · cases he
  · exact hv

/-- A radio link is for its own id. -/
theorem ownId_of_link {id : Text} {task : SessionTask} {config : RfSessionConfig}
    (hlink : f.host.link id = some (task, config)) : task.ownId = id := by
  obtain ⟨hfind, hconfig, -⟩ := Composition.link_eq_some hlink
  rw [SessionTask.ownId, if_pos (hconfig ▸ rfl)]
  exact Table.key_of_find? hfind

/-- A radio link that is open goes over to another script. -/
theorem Vouched.steer (hv : f.Vouched allowed) {id : Text} {task : SessionTask}
    {config : RfSessionConfig} (hlink : f.host.link id = some (task, config))
    {script : SessionScript} (hscript : script.Hands (May id task.call (allowed task.call))) :
    Vouched allowed { f with host := f.host.putTask { task with script := script } } := by
  refine hv.putScript (Composition.link_eq_some hlink).1 rfl rfl (fun e he => Or.inl he) ?_
  rw [ownId_of_link hlink]
  exact hscript

/-- **The loop takes an item off its queue.** What it takes off was in somebody's name when it was
put there. -/
theorem Vouched.drain (hv : f.Vouched allowed) (links : HostLink.Links) (succeeds : ℕ → Bool)
    (now : DateTimeOffset) :
    Vouched allowed { f with host := (f.host.drainQueue links succeeds now).1 } := by
  rw [Composition.drainQueue]
  split
  · exact hv
  · rename_i e queue hqueue
    refine hv.hear now rfl (HostLink.hub_drainLocalEvent links now f.host.hub _ succeeds e)
      (fun work hwork => ?_) fun _ => ?_
    · rw [hqueue]
      exact List.mem_cons_of_mem _ hwork
    · rw [hqueue]
      exact List.mem_cons_self
  · rename_i taskId queue hqueue
    have hrest : ∀ work ∈ queue, work ∈ f.host.queue := fun work hwork => by
      rw [hqueue]
      exact List.mem_cons_of_mem _ hwork
    have hskip : Vouched allowed { f with host := { f.host with queue := queue } } :=
      ⟨hv.scripts, fun e he => hv.queue e (hrest _ he), hv.calls⟩
    dsimp only
    split
    · rename_i task hfind
      split
      · have hresumed := (hv.scripts taskId task hfind).2.resume f.host.hub f.host.shared
        exact hv.putScript hfind rfl rfl (fun e he => Or.inl (hrest _ he)) hresumed
      · exact hskip
    · exact hskip

/-- **One step keeps it**, if who gives the secret is allowed to. Exceptions and cancellations only
take something out of a script, and so keep it too. -/
theorem Vouched.step (hv : f.Vouched allowed) (hproper : label.IsProper)
    (hgives : ∀ call, f.givesSecret call label = true → allowed call) :
    (f.step label).Vouched allowed := by
  cases label with
  | plain label =>
    cases label with
    | connect id call config =>
      change Vouched allowed { f with host := f.host.step (.connect id call config) }
      rw [Composition.step, Composition.next]
      dsimp only
      split
      · exact hv
      · rename_i hfree
        refine hv.put (t := ⟨id, Callsigns.normalize call, some config,
            RfUserSession.greetAndJoin config id (Callsigns.normalize call), false⟩) rfl rfl
          (fun e he => Or.inl he) (fun old hold _ => ?_) (Callsigns.normalize_normalize call)
          (RfUserSession.hands_greetAndJoin config)
        cases hfree.symm.trans hold
    | readLine id intent =>
      change Vouched allowed { f with host := f.host.step (.readLine id intent) }
      rw [Composition.step, Composition.next]
      split
      · rename_i task config hlink
        split
        · refine hv.steer hlink (RfUserSession.hands_handle config intent
            fun secret hoper hne heq => hgives task.call ?_)
          subst hoper
          rw [givesSecret, hlink]
          exact decide_eq_true ⟨rfl, hne, heq⟩
        · exact hv
      · exact hv
    | respond id response =>
      change Vouched allowed { f with host := f.host.step (.respond id response) }
      rw [Composition.step, Composition.next]
      split
      · rename_i task config hlink
        have hscript := (hv.scripts id task (Composition.link_eq_some hlink).1).2
        rw [ownId_of_link hlink] at hscript
        exact hv.steer hlink (hscript.answer response)
      · exact hv
    | close id =>
      change Vouched allowed { f with host := f.host.step (.close id) }
      rw [Composition.step, Composition.next]
      split
      · rename_i task config hlink
        split
        · exact hv.steer hlink RfUserSession.hands_drop
        · exact hv
      · exact hv
    | request id call pathPrefix request =>
      rw [FaultyHost.step]
      split
      · exact hv
      · rw [Composition.step, Composition.next]
        split
        · rename_i hfree
          refine hv.put (t := ⟨id, Callsigns.normalize call, none, WebChat.handle f.host.options
              f.host.operatorSecret pathPrefix (Callsigns.normalize call) request, false⟩) rfl rfl
            (fun e he => Or.inl he) (fun old hold hconfig => ?_)
            (Callsigns.normalize_normalize call)
            (WebChat.hands_handle _ _ _ request fun secret hoper hne heq => hgives _ ?_)
          · -- a request takes the id of one that is done
            rw [Composition.isFree, show f.host.tasks.find? id = some old from hold,
              Option.all_some, Bool.and_eq_true, Option.isNone_iff_eq_none] at hfree
            rw [hfree.1] at hconfig
            cases hconfig
          · subst hoper
            exact decide_eq_true ⟨rfl, hne, heq⟩
        · exact hv
    | proceed now id =>
      rw [FaultyHost.step]
      split
      · rw [Composition.proceedCancelled]
        split
        · rename_i task hfind
          have hscript := (hv.scripts id task hfind).2
          split
          · rename_i sessionId reason next hleave
            rw [hleave] at hscript
            exact hv.putScript hfind rfl rfl (fun e he => Or.inl he) hscript.2
          · exact hv.putScript hfind rfl rfl (fun e he => Or.inl he) trivial
          · exact hv.putScript hfind rfl rfl (fun e he => Or.inl he) trivial
          · exact hv.turn now id
        · exact hv
      · exact hv.turn now id
    | drain links succeeds now => exact hv.drain links succeeds now
    | inbound links exceptPeerId now event =>
      refine hv.hear now rfl (HostLink.hub_applyEvents ..) (fun work hwork => hwork)
        fun hlocal => ?_
      cases hlocal.symm.trans hproper
  | throws id =>
    rw [FaultyHost.step, Composition.throwAt]
    split
    · rename_i task config hlink
      split
      · exact hv.steer hlink RfUserSession.hands_unregister
      · exact hv
    · exact hv
  | cancel id =>
    rw [FaultyHost.step]
    split
    · rename_i task hfind
      split
      · rw [Composition.cancelAt]
        split
        · exact hv.putScript hfind rfl rfl (fun e he => Or.inl he) trivial
        · exact ⟨hv.scripts, hv.queue, hv.calls⟩
      · exact hv
    · exact hv

end FaultyHost

/-! ### What the hub hears of -/

namespace Composition

/-- What the hub hears of in a step. -/
def heard (n : Composition) : Label → List Hub.Input
  | .drain _ _ now =>
    match n.queue with
    | .event e :: _ => [(now, e)]
    | _ => []
  | .inbound _ _ now e => [(now, e)]
  | _ => []

/-- **The hub runs over what it hears of.** -/
theorem hub_step (n : Composition) (label : Label) :
    (n.step label).hub = Run.final Hub.step n.hub (n.heard label) := by
  cases label with
  | connect id call config =>
    rw [step, next]
    dsimp only
    split
    · rfl
    · rfl
  | readLine id intent =>
    rw [step, next]
    split
    · split
      · rfl
      · rfl
    · rfl
  | respond id response =>
    rw [step, next]
    split
    · rfl
    · rfl
  | close id =>
    rw [step, next]
    split
    · split
      · rfl
      · rfl
    · rfl
  | request id call pathPrefix request =>
    rw [step, next]
    split
    · rfl
    · rfl
  | proceed now id =>
    rw [step, next]
    split
    · split
      · rfl
      · rfl
    · rfl
  | drain links succeeds now =>
    -- the loop, and the other hosts below, are all that the hub hears
    change (n.drainQueue links succeeds now).1.hub = _
    rw [drainQueue, heard]
    split
    · rename_i hqueue
      rw [hqueue]
      rfl
    · rename_i hqueue
      rw [hqueue]
      exact HostLink.hub_drainLocalEvent ..
    · rename_i hqueue
      rw [hqueue]
      dsimp only
      split
      · split
        · rfl
        · rfl
      · rfl
  | inbound links exceptPeerId now event => exact HostLink.hub_applyEvents ..

end Composition

namespace FaultyHost

variable {f : FaultyHost} {label : Label}

/-- What the hub hears of in a step, which nothing that goes wrong adds to. -/
def heard (f : FaultyHost) : Label → List Hub.Input
  | .plain label => f.host.heard label
  | _ => []

theorem hub_step (f : FaultyHost) (label : Label) :
    (f.step label).host.hub = Run.final Hub.step f.host.hub (f.heard label) := by
  cases label with
  | plain label =>
    cases label with
    | request id call pathPrefix request =>
      rw [FaultyHost.step]
      split
      · rfl
      · exact f.host.hub_step _
    | proceed now id =>
      rw [FaultyHost.step]
      split
      · rw [Composition.proceedCancelled]
        split
        · split
          · rfl
          · rfl
          · rfl
          · exact f.host.hub_step _
        · rfl
      · exact f.host.hub_step _
    | _ => exact f.host.hub_step _
  | throws id =>
    rw [FaultyHost.step, Composition.throwAt]
    split
    · split
      · rfl
      · rfl
    · rfl
  | cancel id =>
    rw [FaultyHost.step]
    split
    · split
      · rw [Composition.cancelAt]
        split
        · rfl
        · rfl
      · rfl
    · rfl

/-! ### Runs -/

/-- It is so at the start. -/
theorem vouched_new {hostName : Text} {store : Option ConversStore} {hub : Hub}
    (hnew : Hub.new hostName store = .ok hub) (options : WebChat.Options) (operatorSecret : Text)
    (log : ChatLog) (allowed : Text → Prop) :
    (new options operatorSecret hub log).Vouched allowed := by
  refine ⟨?_, ?_, ?_⟩
  · rintro id task hfind
    cases hfind
  · rintro e hmem
    cases hmem
  · rintro id call hcall
    obtain ⟨s, hs, -⟩ := Option.map_eq_some_iff.mp hcall
    exact absurd (Hub.attached_of_find? hs) (Hub.not_attached_of_new hnew s)

/-- **Everybody speaks as himself**: what a task hands over next is in the name of its user, and
when the hub takes an event off the queue, the session it is of is of that user. -/
structure SpeaksAsSelf (f : FaultyHost) : Prop where
  handed : ∀ id task, f.host.tasks.find? id = some task → f.Bound task.ownId task.call ∧
    ∀ now, ∀ e ∈ (task.script.turn now f.host.shared).event, May task.ownId task.call True e
  taken : ∀ e id call, .event e ∈ f.host.queue → e.sessionId? = some id → f.Bound id call →
    (∀ callsign channel, e = .localJoin id callsign channel → callsign = call) ∧
      ∀ call', f.host.hub.callOf id = some call' → call' = call

theorem Vouched.speaksAsSelf (hv : f.Vouched fun _ => True) (hs : f.Sorted) : f.SpeaksAsSelf where
  handed id task hfind := by
    obtain rfl : task.id = id := Table.key_of_find? hfind
    obtain ⟨hcall, hscript⟩ := hv.scripts task.id task hfind
    exact ⟨bound_ownId hfind hcall, fun now e he => (hscript.turn now f.host.shared).1 e he⟩
  taken e id call hmem hsession hb := by
    refine ⟨fun callsign channel heq => ?_, fun call' hcall' =>
      Bound.unique hs (hv.calls id call' hcall') hb⟩
    obtain ⟨id', call', hb', hmay⟩ := hv.queue e hmem
    cases hmay with
    | own hsession' hjoin =>
      obtain rfl : id' = id := Option.some.inj (hsession'.symm.trans hsession)
      exact (hjoin callsign channel heq).trans (Bound.unique hs hb' hb)
    | idle other => cases heq

/-- **Nobody ever speaks as somebody else**, in any run, whatever goes wrong in it. -/
theorem speaksAsSelf_run {hostName : Text} {store : Option ConversStore} {hub : Hub}
    (hnew : Hub.new hostName store = .ok hub) (options : WebChat.Options) (operatorSecret : Text)
    (log : ChatLog) {labels : List Label} (hproper : ∀ label ∈ labels, label.IsProper) :
    (∀ p ∈ Run.trace step (new options operatorSecret hub log) labels, p.1.SpeaksAsSelf) ∧
      (Run.final step (new options operatorSecret hub log) labels).SpeaksAsSelf := by
  obtain ⟨hall, hfinal⟩ := Run.invariant
    (I := fun f : FaultyHost => f.Vouched (fun _ => True) ∧ f.Sorted)
    ⟨vouched_new hnew options operatorSecret log _, sorted_new options operatorSecret hub log⟩
    labels fun p hp hi =>
      have hlabel := hproper _ (Run.mem_of_mem_trace hp)
      ⟨hi.1.step hlabel fun _ _ => trivial, hi.2.change (change_step hlabel)⟩
  exact ⟨fun p hp => (hall p hp).1.speaksAsSelf (hall p hp).2, hfinal.1.speaksAsSelf hfinal.2⟩

/-- Another host names a callsign as an operator, or as none any more. -/
def names (call : Text) : Label → Bool
  | .plain (.inbound _ _ _ (.hostOper user _ _ _)) => decide (Callsigns.normalize user = call)
  | _ => false

/-- **What a run keeps** for a callsign that has not given the secret. -/
structure Powerless (call : Text) (f : FaultyHost) : Prop where
  vouched : f.Vouched (· ≠ call)
  sorted : f.Sorted
  unprivileged : f.host.hub.Unprivileged call

/-- A grant is on the queue only for who has given the secret. -/
theorem Powerless.not_grants {call : Text} (hp : f.Powerless call) {e : ConversEvent}
    (hmem : .event e ∈ f.host.queue) : ¬f.host.hub.Grants call e := by
  obtain ⟨id, call', hb, hmay⟩ := hp.vouched.queue e hmem
  cases hmay with
  | own hsession hjoin hgrant =>
    intro hgrants
    cases e with
    | localSetOperator sessionId channel grant =>
      cases hsession
      exact hgrant rfl (Bound.unique hp.sorted hb (hp.vouched.calls _ call hgrants))
    | hostOper user host channel grant => cases hsession
    | _ => cases hgrants
  | idle other => exact not_false

theorem Powerless.step {call : Text} (hp : f.Powerless call)
    (hcall : Callsigns.normalize call = call) (hproper : label.IsProper)
    (hgives : f.givesSecret call label = false) (hnames : names call label = false) :
    (f.step label).Powerless call where
  vouched := hp.vouched.step hproper fun other hother heq => by
    rw [heq, hgives] at hother
    cases hother
  sorted := hp.sorted.change (change_step hproper)
  unprivileged := by
    have hcanon : f.host.hub.Canonical := fun s hs =>
      (hp.vouched.calls s.id s.callsign (congrArg (Option.map _) hs)).1
    rw [hub_step]
    cases label with
    | plain label =>
      cases label with
      | drain links succeeds now =>
        rw [heard, Composition.heard]
        split
        · rename_i e queue hqueue
          refine hp.unprivileged.step hcanon hcall now (hp.not_grants ?_)
          rw [hqueue]
          exact List.mem_cons_self
        · exact hp.unprivileged
      | inbound links exceptPeerId now e =>
        refine hp.unprivileged.step hcanon hcall now fun hgrants => ?_
        cases e with
        | localSetOperator => cases hproper
        | hostOper user =>
          have hne : ¬Callsigns.normalize user = call := of_decide_eq_false hnames
          exact hne hgrants
        | _ => cases hgrants
      | _ => exact hp.unprivileged
    | _ => exact hp.unprivileged

/-- **Who has not given the secret, and is named by no other host, is no operator**, in any state
of any run, whatever goes wrong in it. -/
theorem unprivileged_run {hostName : Text} {store : Option ConversStore} {hub : Hub}
    (hnew : Hub.new hostName store = .ok hub) (options : WebChat.Options) (operatorSecret : Text)
    (log : ChatLog) {labels : List Label} (hproper : ∀ label ∈ labels, label.IsProper) {call : Text}
    (hcall : Callsigns.normalize call = call)
    (hgives : ∀ p ∈ Run.trace step (new options operatorSecret hub log) labels,
      p.1.givesSecret call p.2 = false)
    (hnames : ∀ label ∈ labels, names call label = false) :
    (∀ p ∈ Run.trace step (new options operatorSecret hub log) labels,
        p.1.host.hub.Unprivileged call) ∧
      (Run.final step (new options operatorSecret hub log) labels).host.hub.Unprivileged call := by
  obtain ⟨hall, hfinal⟩ := Run.invariant (I := Powerless call)
    ⟨vouched_new hnew options operatorSecret log _, sorted_new options operatorSecret hub log,
      Hub.unprivileged_of_new hnew call⟩
    labels fun p hp hi =>
      have hmem := Run.mem_of_mem_trace hp
      hi.step hcall (hproper _ hmem) (hgives p hp) (hnames _ hmem)
  exact ⟨fun p hp => (hall p hp).unprivileged, hfinal.unprivileged⟩

/-- Two radio links join. The first gives the secret, the second a wrong one. -/
def exampleOper : List Label :=
  let config : RfSessionConfig := ⟨"NODE".toList, 0, 0, false, "pw".toList⟩
  let now : DateTimeOffset := ⟨0, zero_ticks_le⟩
  let drain : Label := .plain (.drain ⟨false, [], List.nodup_nil⟩ (fun _ => true) now)
  let proceed (id : Text) : Label := .plain (.proceed now id)
  let join (id call : Text) : List Label :=
    [.plain (.connect id call config), proceed id, proceed id, proceed id, drain, drain, proceed id,
      proceed id]
  let oper (id secret : Text) : List Label :=
    [.plain (.readLine id (.oper secret)), proceed id, drain]
  join "rf-1".toList "M0ABC".toList ++ join "rf-2".toList "2E0XYZ".toList ++
    oper "rf-1".toList "pw".toList ++ oper "rf-2".toList "word".toList

theorem isProper_exampleOper : ∀ label ∈ exampleOper, label.IsProper := by
  simp only [exampleOper, List.cons_append, List.nil_append, List.forall_mem_cons, Label.IsProper,
    true_and]
  exact ⟨⟨1, by decide⟩, ⟨2, by decide⟩, by simp⟩

/-- In that run nobody speaks as somebody else. -/
theorem speaksAsSelf_exampleOper :
    (Run.final step exampleStart exampleOper).SpeaksAsSelf :=
  (speaksAsSelf_run (@Hub.new_none "NODE".toList (by decide)) ⟨"NODE".toList, 0, 50, []⟩ []
    ChatLog.empty isProper_exampleOper).2

/-- The user who gives the secret is an operator in the end, and the other one is not. -/
theorem unprivileged_exampleOper :
    (Run.final step exampleStart exampleOper).host.hub.Unprivileged "2E0XYZ".toList ∧
      (Run.final step exampleStart exampleOper).host.hub.opOn "M0ABC".toList 0 = true := by
  have hgives : ((Run.trace step exampleStart exampleOper).all fun p =>
      !p.1.givesSecret "2E0XYZ".toList p.2) = true := by
    decide +kernel
  have hnames : (exampleOper.all fun label => !names "2E0XYZ".toList label) = true := by
    decide +kernel
  refine ⟨(unprivileged_run (@Hub.new_none "NODE".toList (by decide)) ⟨"NODE".toList, 0, 50, []⟩ []
    ChatLog.empty isProper_exampleOper (by decide) (fun p hp => ?_) fun label hlabel => ?_).2,
    by decide +kernel⟩
  · exact Bool.not_eq_true' _ ▸ List.all_eq_true.mp hgives p hp
  · exact Bool.not_eq_true' _ ▸ List.all_eq_true.mp hnames label hlabel

end FaultyHost

end Convers
