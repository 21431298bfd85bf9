import Convers.Core.Tenure
import Convers.Host.Composition

/-!
# What a session may do

A radio link joins and leaves as itself only, and is left before it is unregistered
(`Convers.RfScript`). A request joins and leaves as the session of a callsign, and each join and
each leave goes with a change of the dictionary of the web sessions, just before it
(`Convers.WebScript`). What is on the queue says whether a session may be here when the queue is
drained (`Convers.Composition.mayStay`).
-/

namespace Convers

/-! ### What is on its way -/

/-- Whether a session may be here after an item of the queue. -/
def LoopWork.settles (id : Text) (here : Bool) : LoopWork → Bool
  | .event e => e.settles id here
  | .snapshot _ => here

/-- Whether a session may be here when the queue is drained. -/
def Composition.mayStay (n : Composition) (id : Text) : Bool :=
  n.queue.foldl (LoopWork.settles id) (n.hub.isHere id)

namespace Composition

variable {n : Composition} {id : Text}

/-- What is added to the queue comes last. -/
theorem mayStay_append {n' : Composition} {works : List LoopWork}
    (hhub : n'.hub = n.hub) (hqueue : n'.queue = n.queue ++ works) :
    n'.mayStay id = works.foldl (LoopWork.settles id) (n.mayStay id) := by
  rw [mayStay, hhub, hqueue, List.foldl_append, mayStay]

/-- What does not matter to a session may be added. -/
theorem foldl_settles_of_forall {works : List LoopWork} {here : Bool}
    (h : ∀ work ∈ works, ∀ b, work.settles id b = b) :
    works.foldl (LoopWork.settles id) here = here := by
  induction works generalizing here with
  | nil => rfl
  | cons work works ih =>
    obtain ⟨hwork, hworks⟩ := List.forall_mem_cons.mp h
    rw [List.foldl_cons, hwork, ih hworks]

/-- A session that may be here is here or on its way. -/
theorem foldl_settles_mono {works : List LoopWork} {here here' : Bool} (h : here ≤ here') :
    works.foldl (LoopWork.settles id) here ≤ works.foldl (LoopWork.settles id) here' := by
  induction works generalizing here here' with
  | nil => exact h
  | cons work works ih =>
    cases work with
    | event e => exact ih (ConversEvent.settles_mono h)
    | snapshot taskId => exact ih h

/-- What one step adds to the queue is the event it hands over, or the snapshot it asks for. -/
theorem mem_turn {event : Option ConversEvent} {asks : Bool} {taskId : Text} {work : LoopWork}
    (h : work ∈ event.toList.map LoopWork.event ++
      if asks then [LoopWork.snapshot taskId] else []) :
    (∃ e ∈ event, work = .event e) ∨ work = .snapshot taskId := by
  rcases List.mem_append.mp h with hmem | hmem
  · obtain ⟨e, he, rfl⟩ := List.mem_map.mp hmem
    exact Or.inl ⟨e, Option.mem_toList.mp he, rfl⟩
  · split at hmem
    · exact Or.inr (List.mem_singleton.mp hmem)
    · cases hmem

/-- What one step adds to the queue matters as the event it hands over does. -/
theorem foldl_settles_turn (event : Option ConversEvent) (asks : Bool) (taskId : Text)
    (here : Bool) :
    (event.toList.map LoopWork.event ++ if asks then [LoopWork.snapshot taskId] else []).foldl
      (LoopWork.settles id) here = (event.map (·.settles id here)).getD here := by
  rcases event with _ | e
  · rcases asks with _ | _
    · rfl
    · rfl
  · rcases asks with _ | _
    · rfl
    · rfl

end Composition

/-! ### The script of a radio link -/

/-- An event of a radio link joins and leaves as that link, under its callsign. -/
def ConversEvent.IsBy (id call : Text) : ConversEvent → Prop
  | .localJoin sessionId callsign _ => sessionId = id ∧ callsign = call
  | .localLeave sessionId _ => sessionId = id
  | _ => True

/-- **The script of a radio link**, whose session may be here or not: it is not here any more when
it is unregistered. -/
inductive RfScript (id call : Text) : Bool → SessionScript → Prop where
  | done (here : Bool) : RfScript id call here .done
  | submit {here : Bool} {event : ConversEvent} {next : SessionScript}
      (hevent : event.IsBy id call) (h : RfScript id call (event.settles id here) next) :
      RfScript id call here (.submit event next)
  | snapshot {here : Bool} {next : Hub → Shared → SessionScript}
      (h : ∀ hub w, RfScript id call here (next hub w)) : RfScript id call here (.snapshot next)
  | write {here : Bool} (text : Text) {next : SessionScript} (h : RfScript id call here next) :
      RfScript id call here (.write text next)
  | read {here : Bool} {next : Text → SessionScript}
      (h : ∀ text, RfScript id call here (next text)) : RfScript id call here (.read next)
  | unregister : RfScript id call false (.act (fun _ w => w.unregister id) fun _ _ => .done)

namespace RfScript

variable {id call : Text} {here : Bool} {script : SessionScript}

/-- It does for a session that is gone. -/
theorem mono (h : RfScript id call here script) {here' : Bool} (hle : here' ≤ here) :
    RfScript id call here' script := by
  induction h generalizing here' with
  | done here => exact .done here'
  | submit hevent h ih => exact .submit hevent (ih (ConversEvent.settles_mono hle))
  | snapshot h ih => exact .snapshot fun hub w => ih hub w hle
  | write text h ih => exact .write text (ih hle)
  | read h ih => exact .read fun text => ih text hle
  | unregister =>
    obtain rfl : here' = false := Bool.eq_false_of_le_false hle
    exact .unregister

theorem tell {next : SessionScript} (line : Text) (h : RfScript id call here next) :
    RfScript id call here (RfUserSession.tell line next) := .write _ h

theorem currentChannel (config : RfSessionConfig) {next : Int32 → SessionScript}
    (h : ∀ channel, RfScript id call here (next channel)) :
    RfScript id call here (RfUserSession.currentChannel config id next) :=
  .snapshot fun _ _ => h _

theorem showTopic (channel : Int32) (announceNone : Bool) {next : SessionScript}
    (h : RfScript id call here next) :
    RfScript id call here (RfUserSession.showTopic channel announceNone next) := by
  refine .snapshot fun hub w => ?_
  dsimp only
  split
  · split
    · exact h.tell _
    · exact h
  · exact h.tell _

theorem paged (pageLength : Int32) (sincePrompt : ℕ) (lines : List Text) :
    RfScript id call here (RfUserSession.paged pageLength sincePrompt lines) := by
  induction lines generalizing sincePrompt with
  | nil => exact .done here
  | cons line lines ih =>
    rw [RfUserSession.paged]
    refine tell _ ?_
    split
    · refine tell _ (.read fun response => ?_)
      dsimp only
      split
      · exact tell _ (.done here)
      · exact ih 0
    · exact ih _

/-- What is handed over is no join and no leave. -/
theorem submit_of_tenure {event : ConversEvent} {next : SessionScript}
    (hevent : event.tenure = none) (h : RfScript id call here next) :
    RfScript id call here (.submit event next) := by
  refine .submit ?_ ?_
  · cases event with
    | localJoin | localLeave => cases hevent
    | _ => trivial
  · rw [ConversEvent.settles_of_ne (by rw [hevent]; simp)]
    exact h

theorem greetAndJoin (config : RfSessionConfig) :
    RfScript id call here (RfUserSession.greetAndJoin config id call) := by
  refine tell _ (.submit ⟨rfl, rfl⟩ ?_)
  exact showTopic _ _ (tell _ (tell _ (.done _)))

/-- **A session is left before it is unregistered.** The channel is so told that he is gone before
the registry forgets him. -/
theorem signOff (config : RfSessionConfig) (reason shown : Text) :
    RfScript id call here (RfUserSession.signOff config id reason shown) := by
  refine .submit rfl ?_
  rw [show (ConversEvent.localLeave id reason).settles id here = false by
    simp [ConversEvent.settles]]
  exact tell _ .unregister

theorem drop : RfScript id call here (RfUserSession.drop id) := by
  refine .submit rfl ?_
  rw [show (ConversEvent.localLeave id "link lost".toList).settles id here = false by
    simp [ConversEvent.settles]]
  exact .unregister

/-- Every intent keeps to that. -/
theorem handle (config : RfSessionConfig) (intent : ConsoleIntent) :
    RfScript id call here (RfUserSession.handle config id intent) := by
  have hdone : RfScript id call here .done := .done here
  cases intent with
  | empty => exact hdone
  | say text =>
    rw [RfUserSession.handle]
    split
    · exact hdone
    · exact submit_of_tenure rfl hdone
  | join channel =>
    rcases channel with _ | channel
    · exact currentChannel config fun _ => tell _ hdone
    · exact submit_of_tenure rfl (showTopic _ _ (tell _ hdone))
  | msg toUser text => exact submit_of_tenure rfl hdone
  | topic text =>
    rw [RfUserSession.handle]
    split
    · exact currentChannel config fun _ => showTopic _ _ hdone
    · exact submit_of_tenure rfl hdone
  | personal text => exact submit_of_tenure rfl (tell _ hdone)
  | away text => exact submit_of_tenure rfl (tell _ hdone)
  | mode channel options =>
    rw [RfUserSession.handle, RfUserSession.handleMode]
    refine currentChannel config fun current => ?_
    dsimp only
    split
    · exact .snapshot fun _ _ => tell _ hdone
    · refine submit_of_tenure rfl ?_
      split
      · exact .snapshot fun _ _ => tell _ hdone
      · exact hdone
  | oper secret =>
    rw [RfUserSession.handle, RfUserSession.handleOper]
    split
    · exact tell _ hdone
    · split
      · exact tell _ hdone
      · exact submit_of_tenure rfl (tell _ hdone)
  | who argument => exact .snapshot fun _ _ => paged _ _ _
  | invite user channel =>
    have hinvite : ∀ channel', RfScript id call here (.submit (.localInvite id user channel')
        (RfUserSession.tell ("Invited ".toList ++ user ++ " to channel ".toList ++
          decimal channel'.toInt ++ ['.']) .done)) :=
      fun channel' => submit_of_tenure rfl (tell _ hdone)
    rcases channel with _ | channel
    · exact currentChannel config hinvite
    · exact hinvite channel
  | help subject => exact paged _ _ _
  | unknown raw => exact tell _ hdone
  | quit reason => exact signOff config reason reason
  | leave reason => exact signOff config _ reason

theorem resume (h : RfScript id call here script) (hub : Hub) (w : Shared) :
    RfScript id call here (script.resume hub w) := by
  cases h with
  | done => exact .done here
  | submit hevent h => exact .submit hevent h
  | snapshot h => exact h hub w
  | write text h => exact .write text h
  | read h => exact .read h
  | unregister => exact .unregister

theorem answer (h : RfScript id call here script) (text : Text) :
    RfScript id call here (script.answer text) := by
  cases h with
  | done => exact .done here
  | submit hevent h => exact .submit hevent h
  | snapshot h => exact .snapshot h
  | write text h => exact .write text h
  | read h => exact h text
  | unregister => exact .unregister

/-- **One step**: it hands over what the link may hand over, and what is shared changes only when
the session is unregistered, which is its last step. -/
theorem turn (h : RfScript id call here script) (now : DateTimeOffset) (w : Shared) :
    (∀ e ∈ (script.turn now w).event, e.IsBy id call) ∧
      RfScript id call (((script.turn now w).event.map (·.settles id here)).getD here)
        (script.turn now w).next ∧
      ((script.turn now w).shared = w ∨
        here = false ∧ (script.turn now w).shared = w.unregister id ∧
          (script.turn now w).next = .done ∧ (script.turn now w).event = none) := by
  cases h with
  | done => exact ⟨by simp [Script.turn], .done here, Or.inl rfl⟩
  | submit hevent h =>
    refine ⟨?_, h, Or.inl rfl⟩
    rintro e he
    cases he
    exact hevent
  | snapshot h => exact ⟨by simp [Script.turn], .snapshot h, Or.inl rfl⟩
  | write text h => exact ⟨by simp [Script.turn], h, Or.inl rfl⟩
  | read h => exact ⟨by simp [Script.turn], .read h, Or.inl rfl⟩
  | unregister => exact ⟨by simp [Script.turn], .done false, Or.inr ⟨rfl, rfl, rfl, rfl⟩⟩

end RfScript

/-! ### The script of a request -/

open WebChatSessions (webId)

namespace Shared

/-- Whether a callsign has a web session. -/
def listsWeb (w : Shared) (call : Text) : Bool := (w.sessionOf.get? call).isSome

/-- Every web session in the dictionary is one. -/
def Kept (w : Shared) : Prop :=
  ∀ call ref, w.sessionOf.get? call = some ref → (w.webSessions.find? ref).isSome = true

/-- **A change of what is shared by a request**, after which the hub is owed a join of a callsign,
or a leave, or nothing: the dictionary has changed for this callsign, and for no other. -/
structure Moves (owed : Option (Text × Bool)) (w w' : Shared) : Prop where
  kept : w'.Kept
  /-- The radio links are none of its concern. -/
  sinks : ∀ id, (∀ call, id ≠ webId call) → w'.sinks.find? id = w.sinks.find? id
  listed : ∀ call here, owed = some (call, here) → w.listsWeb call = !here ∧ w'.listsWeb call = here
  same : ∀ call, (∀ here, owed ≠ some (call, here)) → w'.listsWeb call = w.listsWeb call

section Moves

variable {w : Shared}

theorem listsWeb_of_webSession?_eq_none (hk : w.Kept) {call : Text}
    (hnone : w.webSession? call = none) : w.listsWeb call = false := by
  rw [listsWeb]
  rcases href : w.sessionOf.get? call with _ | ref
  · rfl
  · rw [webSession?, href, Option.bind_some] at hnone
    have hsome := hk call ref href
    rw [hnone] at hsome
    cases hsome

/-- A change that leaves the dictionary and the radio links alone. -/
theorem Moves.of_eq {w' : Shared} (hk : w.Kept) (hsessionOf : w'.sessionOf = w.sessionOf)
    (hwebSessions : ∀ ref, (w.webSessions.find? ref).isSome = true →
      (w'.webSessions.find? ref).isSome = true)
    (hsinks : ∀ id, (∀ call, id ≠ webId call) → w'.sinks.find? id = w.sinks.find? id) :
    Moves none w w' where
  kept call ref href := hwebSessions ref (hk call ref (hsessionOf ▸ href))
  sinks := hsinks
  listed call here howed := by cases howed
  same call _ := by rw [listsWeb, listsWeb, hsessionOf]

theorem Moves.refl (hk : w.Kept) : Moves none w w := .of_eq hk rfl (fun _ h => h) fun _ _ => rfl

theorem Moves.unregister (hk : w.Kept) (call : Text) : Moves none w (w.unregister (webId call)) :=
  .of_eq hk rfl (fun _ h => h) fun _ hid =>
    (w.sinks.find?_remove _ _).trans (if_neg (hid call))

theorem Moves.register (hk : w.Kept) (call name : Text) (isTerminal : Bool) :
    Moves none w (w.register ⟨webId call, name, isTerminal⟩) :=
  .of_eq hk rfl (fun _ h => h) fun _ hid => (w.sinks.find?_put _ _).trans (if_neg (hid call))

theorem isSome_find?_put (session : WebSession) {ref : ℕ}
    (h : (w.webSessions.find? ref).isSome = true) :
    ((w.webSessions.put session).find? ref).isSome = true := by
  rw [Table.find?_put]
  split
  · rfl
  · exact h

theorem Moves.putWebSession (hk : w.Kept) (session : WebSession) :
    Moves none w (w.putWebSession session) :=
  .of_eq hk rfl (fun _ h => isSome_find?_put session h) fun _ _ => rfl

/-- A callsign gets a web session. -/
theorem Moves.addWebSession (hk : w.Kept) {call : Text} (hnone : w.webSession? call = none)
    (channel : Int32) (now : DateTimeOffset) :
    Moves (some (call, true)) w (w.addWebSession call channel now) where
  kept call' ref href := by
    rw [Shared.addWebSession, Table.Dict.get?_set] at href
    split at href
    · cases href
      exact Option.isSome_iff_exists.mpr ⟨_, (Table.find?_put _ _ _).trans (if_pos rfl)⟩
    · exact isSome_find?_put _ (hk call' ref href)
  sinks _ _ := rfl
  listed call' here howed := by
    cases howed
    refine ⟨listsWeb_of_webSession?_eq_none hk hnone, ?_⟩
    rw [listsWeb, Shared.addWebSession, Table.Dict.get?_set, if_pos rfl]
    rfl
  same call' hne := by
    rw [listsWeb, Shared.addWebSession, Table.Dict.get?_set, if_neg, listsWeb]
    intro heq
    exact hne true (by rw [heq])

/-- A callsign loses its web session. -/
theorem Moves.sweep (hk : w.Kept) {now : DateTimeOffset} {session : WebSession}
    (hidle : WebChatSessions.isIdle now w session = true) :
    Moves (some (session.callsign, false)) w
      { w with sessionOf := w.sessionOf.remove session.callsign } where
  kept call' ref href := by
    rw [Table.Dict.get?_remove] at href
    split at href
    · cases href
    · exact hk call' ref href
  sinks _ _ := rfl
  listed call' here howed := by
    cases howed
    rw [WebChatSessions.isIdle, Bool.and_eq_true, decide_eq_true_eq] at hidle
    refine ⟨by rw [listsWeb, hidle.2]; rfl, ?_⟩
    rw [listsWeb, Table.Dict.get?_remove, if_pos rfl]
    rfl
  same call' hne := by
    rw [listsWeb, Table.Dict.get?_remove, if_neg, listsWeb]
    intro heq
    exact hne false (by rw [heq])

end Moves

end Shared

/-- **The script of a request**, which owes the hub a join of a callsign, or a leave, or nothing.
Only a change of the dictionary makes it owe one, and the next thing it hands over is that one. -/
inductive WebScript : Option (Text × Bool) → SessionScript → Prop where
  | done : WebScript none .done
  | report (page : WebChat.ChannelView) : WebScript none (.report page)
  | write (text : Text) {next : SessionScript} (h : WebScript none next) :
      WebScript none (.write text next)
  | snapshot {next : Hub → Shared → SessionScript} (h : ∀ hub w, WebScript none (next hub w)) :
      WebScript none (.snapshot next)
  | submit {event : ConversEvent} {next : SessionScript} (hevent : event.tenure = none)
      (h : WebScript none next) : WebScript none (.submit event next)
  | act {change : DateTimeOffset → Shared → Shared} {next : DateTimeOffset → Shared → SessionScript}
      (owed : DateTimeOffset → Shared → Option (Text × Bool))
      (hmoves : ∀ now (w : Shared), w.Kept → w.Moves (owed now w) (change now w))
      (h : ∀ now (w : Shared), w.Kept → WebScript (owed now w) (next now w)) :
      WebScript none (.act change next)
  | register {call : Text} {channel : Int32} {next : SessionScript}
      (hcall : Callsigns.normalize call = call) (h : WebScript none next) :
      WebScript (some (call, true)) (.act (fun _ w => w.register ⟨webId call, call, false⟩)
        fun _ _ => .submit (.localJoin (webId call) call channel) next)
  | join {call : Text} {channel : Int32} {next : SessionScript}
      (hcall : Callsigns.normalize call = call) (h : WebScript none next) :
      WebScript (some (call, true)) (.submit (.localJoin (webId call) call channel) next)
  | leave {call reason : Text} {next : SessionScript} (h : WebScript none next) :
      WebScript (some (call, false)) (.submit (.localLeave (webId call) reason) next)

namespace WebScript

open WebChatSessions WebChat

variable {call : Text} {next : SessionScript}

/-- A step that changes nothing the hub is owed for. -/
theorem quiet {change : DateTimeOffset → Shared → Shared}
    {next : DateTimeOffset → Shared → SessionScript}
    (hmoves : ∀ now (w : Shared), w.Kept → w.Moves none (change now w))
    (h : ∀ now w, WebScript none (next now w)) : WebScript none (.act change next) :=
  .act (fun _ _ => none) hmoves fun now w _ => h now w

theorem sweep (now : DateTimeOffset) (sessions : List WebSession) (h : WebScript none next) :
    WebScript none (WebChatSessions.sweep now sessions next) := by
  induction sessions with
  | nil => exact h
  | cons session sessions ih =>
    refine .act (fun _ w => if isIdle now w session then some (session.callsign, false) else none)
      (fun _ w hk => ?_) fun _ w _ => ?_
    · split
      · rename_i hidle
        exact .sweep hk hidle
      · exact .refl hk
    · split
      · exact .leave (quiet (fun _ _ hk => .unregister hk _) fun _ _ => ih)
      · exact ih

theorem sweepIdle (h : WebScript none next) : WebScript none (WebChatSessions.sweepIdle next) :=
  quiet (fun _ _ hk => .refl hk) fun _ _ => sweep _ _ h

theorem getOrCreate (defaultChannel : Int32) (hcall : Callsigns.normalize call = call)
    {next : ℕ → SessionScript} (h : ∀ ref, WebScript none (next ref)) :
    WebScript none (WebChatSessions.getOrCreate defaultChannel call next) := by
  refine sweepIdle (.act
    (fun _ w => if (w.webSession? call).isNone then some (call, true) else none)
    (fun now w hk => ?_) fun now w _ => ?_)
  · rcases hsession : w.webSession? call with _ | session
    · exact .addWebSession hk hsession _ _
    · exact .putWebSession hk _
  · rcases w.webSession? call with _ | session
    · exact .register hcall (h _)
    · exact h _

theorem ensureJoined (defaultChannel : Int32) (hcall : Callsigns.normalize call = call)
    {next : Int32 → SessionScript} (h : ∀ channel, WebScript none (next channel)) :
    WebScript none (WebChatSessions.ensureJoined defaultChannel call next) :=
  getOrCreate _ hcall fun _ => .snapshot fun _ _ => h _

theorem currentChannel (defaultChannel : Int32) {next : Int32 → SessionScript}
    (h : ∀ channel, WebScript none (next channel)) :
    WebScript none (WebChatSessions.currentChannel defaultChannel call next) := by
  refine sweepIdle (quiet (fun now w hk => ?_) fun now w => ?_)
  · rcases w.webSession? call with _ | session
    · exact .refl hk
    · exact .putWebSession hk _
  · rcases w.webSession? call with _ | session
    · exact h _
    · exact .snapshot fun _ _ => h _

theorem joinChannel (defaultChannel : Int32) (hcall : Callsigns.normalize call = call)
    (channel : Int32) (h : WebScript none next) :
    WebScript none (WebChatSessions.joinChannel defaultChannel call channel next) := by
  rw [WebChatSessions.joinChannel]
  split
  · exact h
  · refine getOrCreate _ hcall fun ref => .submit rfl (quiet (fun now w hk => ?_) fun _ _ => h)
    rcases w.webSessions.find? ref with _ | session
    · exact .refl hk
    · exact .putWebSession hk _

theorem submitting (defaultChannel : Int32) (hcall : Callsigns.normalize call = call)
    {event : ConversEvent} (hevent : event.tenure = none) (h : WebScript none next) :
    WebScript none (WebChatSessions.submit defaultChannel call event next) :=
  getOrCreate _ hcall fun _ => .submit hevent h

theorem isOperator {next : Bool → SessionScript} (h : ∀ isOp, WebScript none (next isOp)) :
    WebScript none (WebChatSessions.isOperator call next) := by
  refine quiet (fun _ _ hk => .refl hk) fun _ w => ?_
  rcases w.webSession? call with _ | session
  · exact h _
  · exact .snapshot fun _ _ => h _

/-- **Every request keeps to that.** -/
theorem handle (o : WebChat.Options) (operatorSecret pathPrefix : Text)
    (hcall : Callsigns.normalize call = call) (request : WebChat.Request) :
    WebScript none (WebChat.handle o operatorSecret pathPrefix call request) := by
  have hredirect : ∀ path, WebScript none (redirect pathPrefix path) := fun path => .write _ .done
  cases request with
  | channelView channel operResult =>
    have hview : ∀ c : Int32, WebScript none (.snapshot fun h _ =>
        let ch := h.getChannel c
        WebChatSessions.isOperator call fun isOperator => .report
          { options := o, pathPrefix := pathPrefix, call := call, channel := c,
            present := ch.users, topic := ch.topic, topicBy := ch.topicSetBy, modes := ch.modes,
            isOperator := isOperator, operResult := operResult }) :=
      fun c => .snapshot fun _ _ => isOperator fun _ => .report _
    rcases channel with _ | req
    · exact ensureJoined _ hcall hview
    · rw [WebChat.handle, channelViewAsync]
      dsimp only
      split
      · exact joinChannel _ hcall _ (hview req)
      · exact ensureJoined _ hcall hview
  | who =>
    rw [WebChat.handle, whoAsync]
    exact currentChannel _ fun _ => .snapshot fun _ _ => .write _ .done
  | say text =>
    rw [WebChat.handle, WebChatSessions.say]
    split
    · exact hredirect _
    · exact submitting _ hcall rfl (hredirect _)
  | join channel =>
    rcases channel with _ | ch
    · exact hredirect _
    · rw [WebChat.handle]
      split
      · exact joinChannel _ hcall _ (hredirect _)
      · exact hredirect _
  | topic topic => exact submitting _ hcall rfl (hredirect _)
  | msg toUser text =>
    rw [WebChat.handle, WebChatSessions.privateMessage]
    split
    · exact hredirect _
    · exact submitting _ hcall rfl (hredirect _)
  | mode options =>
    rw [WebChat.handle, WebChatSessions.setMode]
    split
    · exact hredirect _
    · exact ensureJoined _ hcall fun _ => .submit rfl (hredirect _)
  | away text => exact submitting _ hcall rfl (hredirect _)
  | oper secret =>
    rw [WebChat.handle, WebChatSessions.tryOper]
    split
    · exact hredirect _
    · exact submitting _ hcall rfl (hredirect _)

/-- The event that settles what is owed. -/
def Pays (call : Text) (here : Bool) : ConversEvent → Prop
  | .localJoin sessionId callsign _ =>
    sessionId = webId call ∧ callsign = call ∧ Callsigns.normalize call = call ∧ here = true
  | .localLeave sessionId _ => sessionId = webId call ∧ here = false
  | _ => False

/-- **What one step comes to**, from what is owed to what is owed after it. -/
inductive Stepped (w : Shared)
    (t : Script.Turn DateTimeOffset Shared Hub ConversEvent Text WebChat.ChannelView) :
    Option (Text × Bool) → Option (Text × Bool) → Prop where
  | moved {owed : Option (Text × Bool)} (hevent : ∀ e ∈ t.event, e.tenure = none)
      (hmoves : w.Moves owed t.shared) : Stepped w t none owed
  | stayed {owed : Option (Text × Bool)} (hevent : t.event = none)
      (hmoves : w.Moves none t.shared) : Stepped w t owed owed
  | paid {call : Text} {here : Bool} {e : ConversEvent} (hevent : t.event = some e)
      (he : Pays call here e) (hshared : t.shared = w) : Stepped w t (some (call, here)) none

theorem Stepped.kept {w : Shared}
    {t : Script.Turn DateTimeOffset Shared Hub ConversEvent Text WebChat.ChannelView}
    {owed owed' : Option (Text × Bool)} (h : Stepped w t owed owed') (hk : w.Kept) :
    t.shared.Kept := by
  cases h with
  | moved hevent hmoves => exact hmoves.kept
  | stayed hevent hmoves => exact hmoves.kept
  | paid hevent he hshared => exact hshared ▸ hk

/-- The radio links are none of its concern. -/
theorem Stepped.sinks {w : Shared}
    {t : Script.Turn DateTimeOffset Shared Hub ConversEvent Text WebChat.ChannelView}
    {owed owed' : Option (Text × Bool)} (h : Stepped w t owed owed') {id : Text}
    (hid : ∀ call, id ≠ webId call) : t.shared.sinks.find? id = w.sinks.find? id := by
  cases h with
  | moved hevent hmoves => exact hmoves.sinks id hid
  | stayed hevent hmoves => exact hmoves.sinks id hid
  | paid hevent he hshared => rw [hshared]

/-- What is handed over is no join and no leave, or that of a web session. -/
theorem Stepped.event {w : Shared}
    {t : Script.Turn DateTimeOffset Shared Hub ConversEvent Text WebChat.ChannelView}
    {owed owed' : Option (Text × Bool)} (h : Stepped w t owed owed') :
    ∀ e ∈ t.event, e.tenure = none ∨ ∃ call here, Pays call here e := by
  cases h with
  | moved hevent hmoves => exact fun e he => Or.inl (hevent e he)
  | stayed hevent hmoves => simp [hevent]
  | @paid call here e hevent he hshared =>
    rintro e' he'
    obtain rfl : e = e' := Option.some.inj (hevent.symm.trans he')
    exact Or.inr ⟨call, here, he⟩

theorem Pays.tenure {call : Text} {here : Bool} {e : ConversEvent} (h : Pays call here e) :
    e.tenure = some (webId call) := by
  cases e with
  | localJoin | localLeave => exact congrArg some h.1
  | _ => exact h.elim

/-- It is the last word. -/
theorem Pays.settles {call : Text} {here : Bool} {e : ConversEvent} (h : Pays call here e)
    (b : Bool) : e.settles (webId call) b = here := by
  cases e with
  | localJoin =>
    obtain ⟨rfl, -, -, rfl⟩ := h
    simp [ConversEvent.settles]
  | localLeave =>
    obtain ⟨rfl, rfl⟩ := h
    simp [ConversEvent.settles]
  | _ => exact h.elim

/-- **One step.** -/
theorem turn {owed : Option (Text × Bool)} {script : SessionScript} (h : WebScript owed script)
    (now : DateTimeOffset) {w : Shared} (hk : w.Kept) :
    ∃ owed', WebScript owed' (script.turn now w).next ∧
      Stepped w (script.turn now w) owed owed' := by
  have hnone : ∀ e ∈ (none : Option ConversEvent), e.tenure = none := by simp
  cases h with
  | done => exact ⟨none, .done, .moved hnone (.refl hk)⟩
  | report page => exact ⟨none, .done, .moved hnone (.refl hk)⟩
  | write text h => exact ⟨none, h, .moved hnone (.refl hk)⟩
  | snapshot h => exact ⟨none, .snapshot h, .moved hnone (.refl hk)⟩
  | submit hevent h =>
    refine ⟨none, h, .moved ?_ (.refl hk)⟩
    rintro e he
    cases he
    exact hevent
  | act owed hmoves h => exact ⟨owed now w, h now w hk, .moved hnone (hmoves now w hk)⟩
  | register hcall h => exact ⟨_, .join hcall h, .stayed rfl (.register hk _ _ _)⟩
  | join hcall h => exact ⟨none, h, .paid rfl ⟨rfl, rfl, hcall, rfl⟩ rfl⟩
  | leave h => exact ⟨none, h, .paid rfl ⟨rfl, rfl⟩ rfl⟩

theorem resume {owed : Option (Text × Bool)} {script : SessionScript} (h : WebScript owed script)
    (hub : Hub) (w : Shared) : WebScript owed (script.resume hub w) := by
  cases h with
  | done => exact .done
  | report page => exact .report page
  | write text h => exact .write text h
  | snapshot h => exact h hub w
  | submit hevent h => exact .submit hevent h
  | act owed hmoves h => exact .act owed hmoves h
  | register hcall h => exact .register hcall h
  | join hcall h => exact .join hcall h
  | leave h => exact .leave h

end WebScript

end Convers
