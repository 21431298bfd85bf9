import Convers.Core.Gates
import Convers.Core.Tenure
import Convers.Host.ConsoleSession
import Convers.Host.Undisturbed

/-!
# The channel a user is told

Three front ends tell a user the channel he is on: a radio link and a terminal beside the hub when
they greet and after a `join`, and the page of a channel. Each tells the number that was asked for,
and leaves it to the hub whether the session gets there. So what is told is what the hub has exactly
when the hub grants the request (`Convers.ChannelRequest.isTruthful_iff`):

| request | it is granted when |
|---|---|
| a greeting | the default channel admits the callsign, or the session is on it |
| `join` to a channel | the session is on the channel or may switch to it |
| `join` to none | there is a session |
| the page, for a session that stays | as a `join` |
| the page, for a new session | the default channel admits the callsign, and so does the channel |

A session of the web stays unless it has been idle for too long: then the request itself signs it
off first.
-/

namespace Convers

/-! ### What the hub grants -/

namespace Hub

/-- A session is on a channel. -/
def IsOn (h : Hub) (id : Text) (channel : Int32) : Prop :=
  ∃ s, h.sessions.find? id = some s ∧ s.channel = channel

/-- A session is on a channel, or may switch to it. -/
def MayBeOn (h : Hub) (id : Text) (channel : Int32) : Prop :=
  ∃ s, h.sessions.find? id = some s ∧ (s.channel = channel ∨ h.allows channel s = true)

/-- Two states whose channels let in the same. -/
structure SameGates (h h' : Hub) : Prop where
  channels : h'.channels = h.channels
  globalOps : h'.globalOps = h.globalOps
  invites : h'.invites = h.invites

section Gates

variable {h h' : Hub} (now : DateTimeOffset) (id callsign : Text) (channel : Int32)

theorem SameGates.refl (h : Hub) : h.SameGates h := ⟨rfl, rfl, rfl⟩

theorem SameGates.trans {h'' : Hub} (hg : h.SameGates h') (hg' : h'.SameGates h'') :
    h.SameGates h'' :=
  ⟨hg'.channels.trans hg.channels, hg'.globalOps.trans hg.globalOps,
    hg'.invites.trans hg.invites⟩

theorem SameGates.modesOf_eq (hg : h.SameGates h') : h'.modesOf channel = h.modesOf channel := by
  rw [modesOf, modesOf, hg.channels]

theorem SameGates.admits_eq (hg : h.SameGates h') :
    h'.admits channel callsign = h.admits channel callsign := by
  rw [admits, admits, hg.modesOf_eq, isInvitedTo, isInvitedTo, isGlobalOperator, isGlobalOperator,
    hg.invites, hg.globalOps]

theorem SameGates.mayBeOn_iff (hg : h.SameGates h')
    (hfind : h'.sessions.find? id = h.sessions.find? id) :
    h'.MayBeOn id channel ↔ h.MayBeOn id channel := by
  simp only [MayBeOn, allows, hfind, hg.modesOf_eq]

/-- A leave changes no gate. -/
theorem sameGates_localLeave (reason : Text) :
    h.SameGates (step h (now, .localLeave id reason)) := by
  rw [step, advance]
  rcases hs : h.sessions.find? id with _ | s
  · simp only [localLeave, hs]
    exact .refl h
  · obtain rfl : s.id = id := Table.key_of_find? hs
    rw [localLeave_of_find? now reason hs]
    exact ⟨rfl, rfl, rfl⟩

/-- **After a join a session is on the channel** when the channel admits the callsign, or it was on
it before. The gate of a join is that of the channel alone, as nobody is an operator yet. -/
theorem isOn_localJoin_iff :
    (step h (now, .localJoin id callsign channel)).IsOn id channel ↔
      h.admits channel (Callsigns.normalize callsign) = true ∨ h.IsOn id channel := by
  rw [step, advance]
  rcases hadm : h.admits channel (Callsigns.normalize callsign) with _ | _
  · rw [(localJoin_of_not_admits now id hadm).1]
    simp
  · rw [localJoin_of_admits now id hadm]
    exact iff_of_true ⟨joinedSession now h id callsign channel,
      (find?_sessions_storeSession _ _ _).trans (if_pos rfl), rfl⟩ (Or.inl rfl)

/-- **After a switch a session is on the channel** when it was on it before, or may go there. An
operator of the channel he leaves may go anywhere, which is where this differs from a join. -/
theorem isOn_localSwitchChannel_iff :
    (step h (now, .localSwitchChannel id channel)).IsOn id channel ↔ h.MayBeOn id channel := by
  rw [step, advance]
  rcases hs : h.sessions.find? id with _ | s
  · have hnone : h.ignore.hub.sessions.find? id = none := hs
    simp [localSwitchChannel, hs, IsOn, MayBeOn, hnone]
  obtain rfl : s.id = id := Table.key_of_find? hs
  have hmay : h.MayBeOn s.id channel ↔ s.channel = channel ∨ h.allows channel s = true := by
    simp [MayBeOn, hs]
  rw [hmay]
  rcases hall : h.allows channel s with _ | _
  · rw [(localSwitchChannel_of_not_allows now hs hall).1]
    simp [IsOn, hs]
  · rw [localSwitchChannel_of_allows now hs hall]
    exact iff_of_true ⟨switchedSession now h s channel,
      (find?_sessions_storeSession _ _ _).trans (if_pos rfl), rfl⟩ (Or.inr rfl)

/-- A newcomer may go on to the channels that admit him. -/
theorem mayBeOn_localJoin_of_admits {home : Int32}
    (hadm : h.admits home (Callsigns.normalize callsign) = true)
    (hvalid : ChannelNumber.isValid channel = true) :
    (step h (now, .localJoin id callsign home)).MayBeOn id channel ↔
      home = channel ∨ h.admits channel (Callsigns.normalize callsign) = true := by
  rw [step, advance, localJoin_of_admits now id hadm]
  have hfind : (h.storeSession (joinedSession now h id callsign home)).sessions.find? id =
      some (joinedSession now h id callsign home) :=
    (find?_sessions_storeSession _ _ _).trans (if_pos rfl)
  rw [MayBeOn, hfind]
  simp only [Option.some.injEq, exists_eq_left']
  by_cases hhome : home = channel
  · exact iff_of_true (Or.inl hhome) (Or.inl hhome)
  · have hmodes : (h.storeSession (joinedSession now h id callsign home)).modesOf channel =
        h.modesOf channel := rfl
    rw [allows, admits, hmodes, hvalid]
    simp only [joinedSession, hhome, ne_eq, not_false_eq_true, decide_true, Bool.true_and,
      Bool.or_eq_true, decide_eq_true_iff, mem_invitesFor_iff, false_or]
    exact or_right_comm

end Gates

end Hub

/-! ### What a task says -/

namespace RfUserSession

/-- What begins with a text begins as it does. -/
theorem head?_append_of_some {s t : Text} {c : Char} (hs : s.head? = some c) :
    (s ++ t).head? = some c := by
  rw [List.head?_append, hs, Option.some_or]

theorem head?_onChannel (channel : Int32) : (writeLine (onChannel channel)).head? = some 'Y' :=
  head?_append_of_some (head?_append_of_some (head?_append_of_some rfl))

/-- What begins otherwise is not the line that tells a channel. -/
theorem not_mem_of_head? {lines : List Text} {channel : Int32}
    (hlines : ∀ line ∈ lines, line.head? ≠ some 'Y') : writeLine (onChannel channel) ∉ lines :=
  fun hmem => hlines _ hmem (head?_onChannel channel)

/-- A line that begins otherwise. -/
theorem head?_ne_of_some {s : Text} {c : Char} (hs : s.head? = some c) (hc : c ≠ 'Y') :
    s.head? ≠ some 'Y' := by
  rw [hs]
  exact fun h => hc (Option.some.inj h)

/-- The line tells the number. -/
theorem onChannel_injective : Function.Injective onChannel := by
  intro a b h
  have hdigits : decimal a.toInt = decimal b.toInt :=
    List.append_cancel_left (List.append_cancel_right h)
  exact Int32.toInt_inj.mp (decimal_injective hdigits)

/-- The one line that tells a channel is the one that is told. -/
theorem mem_onChannel_iff {before after : List Text} {channel told : Int32}
    (hbefore : ∀ line ∈ before, line.head? ≠ some 'Y')
    (hafter : ∀ line ∈ after, line.head? ≠ some 'Y') :
    writeLine (onChannel told) ∈ before ++ writeLine (onChannel channel) :: after ↔
      told = channel := by
  rw [List.mem_append, List.mem_cons, writeLine_injective.eq_iff, onChannel_injective.eq_iff]
  constructor
  · rintro (hmem | heq | hmem)
    · exact absurd hmem (not_mem_of_head? hbefore)
    · exact heq
    · exact absurd hmem (not_mem_of_head? hafter)
  · exact fun heq => Or.inr (Or.inl heq)

variable (clock : ℕ → DateTimeOffset) (answers : ℕ → Text) (h : Hub) (w : Shared)

theorem alone_tell (line : Text) (next : SessionScript) :
    (tell line next).alone Hub.step clock answers h w =
      (next.alone Hub.step clock answers h w).after [writeLine line] none := rfl

/-- A topic is shown, or nothing. -/
theorem alone_showTopic (channel : Int32) (announceNone : Bool) (next : SessionScript) :
    ∃ before : List Text, (∀ line ∈ before, line.head? ≠ some 'Y') ∧
      (showTopic channel announceNone next).alone Hub.step clock answers h w =
        (next.alone Hub.step clock answers h w).after before none := by
  rw [showTopic, Script.alone]
  dsimp only
  split
  · rcases announceNone with _ | _
    · exact ⟨[], by simp, rfl⟩
    · refine ⟨_, List.forall_mem_singleton.mpr ?_, alone_tell ..⟩
      exact head?_ne_of_some (head?_append_of_some (head?_append_of_some
        (head?_append_of_some rfl))) (by decide)
  · refine ⟨_, List.forall_mem_singleton.mpr ?_, alone_tell ..⟩
    exact head?_ne_of_some (head?_append_of_some (head?_append_of_some
      (head?_append_of_some (head?_append_of_some (head?_append_of_some rfl))))) (by decide)

/-- **A greeting alone**: the hub takes the join, and the default channel is told. -/
theorem alone_greetAndJoin (config : RfSessionConfig) (sessionId call : Text) :
    ∃ before after : List Text, (∀ line ∈ before, line.head? ≠ some 'Y') ∧
      (∀ line ∈ after, line.head? ≠ some 'Y') ∧
      (greetAndJoin config sessionId call).alone Hub.step clock answers h w =
        ⟨Hub.step h (clock 0, .localJoin sessionId call config.defaultChannel), w,
          before ++ writeLine (onChannel config.defaultChannel) :: after, none⟩ := by
  rw [greetAndJoin, alone_tell, Script.alone]
  obtain ⟨topic, htopic, halone⟩ := alone_showTopic (fun n => clock (n + 1)) answers
    (Hub.step h (clock 0, .localJoin sessionId call config.defaultChannel)) w
    config.defaultChannel false (tell (onChannel config.defaultChannel)
      (tell (if config.isClassic then "Classic mode. Type /help for commands.".toList
        else "Type 'help' for commands, or just type to chat.".toList) .done))
  rw [halone, alone_tell, alone_tell, Script.alone, Script.Outcome.after_after,
    Script.Outcome.after_after, Script.Outcome.after_after]
  refine ⟨writeLine ('[' :: config.nodeName ++ " convers] Welcome ".toList ++ call ++ ['.']) ::
      topic, [writeLine (if config.isClassic then "Classic mode. Type /help for commands.".toList
        else "Type 'help' for commands, or just type to chat.".toList)], ?_,
    List.forall_mem_singleton.mpr ?_, ?_⟩
  · exact List.forall_mem_cons.mpr ⟨head?_ne_of_some rfl (by decide), htopic⟩
  · rcases config.isClassic with _ | _
    · exact head?_ne_of_some (head?_append_of_some rfl) (by decide)
    · exact head?_ne_of_some (head?_append_of_some rfl) (by decide)
  · rw [Script.Outcome.after_of_nil]
    simp only [List.append_assoc, List.cons_append, List.nil_append, Option.or_none]

/-- **A `join` alone**: the hub takes the switch, and the channel is told. -/
theorem alone_join (config : RfSessionConfig) (sessionId : Text) (channel : Int32) :
    ∃ before : List Text, (∀ line ∈ before, line.head? ≠ some 'Y') ∧
      (handle config sessionId (.join (some channel))).alone Hub.step clock answers h w =
        ⟨Hub.step h (clock 0, .localSwitchChannel sessionId channel), w,
          before ++ [writeLine (onChannel channel)], none⟩ := by
  rw [handle, Script.alone]
  obtain ⟨topic, htopic, halone⟩ := alone_showTopic (fun n => clock (n + 1)) answers
    (Hub.step h (clock 0, .localSwitchChannel sessionId channel)) w channel false
    (tell (onChannel channel) .done)
  rw [halone, alone_tell, Script.alone, Script.Outcome.after_after]
  exact ⟨topic, htopic, Script.Outcome.after_of_nil ..⟩

/-- **A `join` to no channel alone**: the channel of the session is told, or the default. -/
theorem alone_join_none (config : RfSessionConfig) (sessionId : Text) :
    (handle config sessionId (.join none)).alone Hub.step clock answers h w =
      ⟨h, w, [writeLine (onChannel (((h.sessions.find? sessionId).map
        LocalSession.channel).getD config.defaultChannel))], none⟩ := by
  rw [handle, currentChannel, Script.alone, alone_tell, Script.alone]
  exact Script.Outcome.after_of_nil ..

end RfUserSession

namespace ConverseConsoleSession

open RfUserSession (writeLine onChannel head?_append_of_some head?_ne_of_some)

variable (clock : ℕ → DateTimeOffset) (answers : ℕ → Text) (h : Hub)

theorem alone_tell (line : Text) (next : ConsoleScript) (state : Unit) :
    (tell line next).alone (fun state _ => state) clock answers state h =
      (next.alone (fun state _ => state) clock answers state h).after [writeLine line] none := rfl

/-- A line that is rendered is a message or a notice. -/
theorem head?_of_mem_render {actions : List ConversAction} {sessionId line : Text}
    (hline : line ∈ ActionRenderer.render actions sessionId) : line.head? ≠ some 'Y' := by
  obtain ⟨action, -, hrender⟩ := List.mem_filterMap.mp hline
  split at hrender
  swap
  · cases hrender
  cases action with
  | deliverChannelMessage sessionId channel fromUser text =>
    cases hrender
    exact head?_ne_of_some rfl (by decide)
  | deliverPrivateMessage | deliverAwayNotice | deliverInvite | deliverJoinNotice
  | deliverLeaveNotice | deliverTopic | deliverModeChange =>
    cases hrender
    simp only [List.append_assoc]
    exact head?_ne_of_some (head?_append_of_some rfl) (by decide)
  | deliverModeNotice =>
    cases hrender
    exact head?_ne_of_some (head?_append_of_some rfl) (by decide)
  | _ => cases hrender

/-- **Pages alone**: lines of the listing, prompts, and then what comes after. -/
theorem alone_paged (pageLength : Int32) (sincePrompt : ℕ) {lines : List Text}
    (hlines : ∀ line ∈ lines, line.head? ≠ some 'Y') (next : ConsoleScript) (state : Unit) :
    ∃ (before : List Text) (answers' : ℕ → Text), (∀ line ∈ before, line.head? ≠ some 'Y') ∧
      (paged pageLength sincePrompt lines next).alone (fun state _ => state) clock answers state h =
        (next.alone (fun state _ => state) clock answers' state h).after before none := by
  induction lines generalizing sincePrompt answers with
  | nil => exact ⟨[], answers, by simp, rfl⟩
  | cons line lines ih =>
    obtain ⟨hline, hlines⟩ := List.forall_mem_cons.mp hlines
    rw [paged, alone_tell]
    have hwritten : (writeLine line).head? ≠ some 'Y' := by
      rcases line with _ | ⟨c, line⟩
      · exact head?_ne_of_some rfl (by decide)
      · exact hline
    split
    · -- a prompt, and its answer
      have hprompt : (writeLine "<A>bort, <CR> Continue..>".toList).head? ≠ some 'Y' :=
        head?_ne_of_some (head?_append_of_some rfl) (by decide)
      rw [alone_tell, Script.alone]
      dsimp only
      split
      · have haborted : (writeLine "Output aborted".toList).head? ≠ some 'Y' :=
          head?_ne_of_some (head?_append_of_some rfl) (by decide)
        refine ⟨[writeLine line, writeLine "<A>bort, <CR> Continue..>".toList,
          writeLine "Output aborted".toList], fun n => answers (n + 1), ?_, ?_⟩
        · simp only [List.forall_mem_cons]
          exact ⟨hwritten, hprompt, haborted, by simp⟩
        · rw [alone_tell, Script.Outcome.after_after, Script.Outcome.after_after]
          rfl
      · obtain ⟨before, answers', hbefore, halone⟩ := ih (fun n => answers (n + 1)) 0 hlines
        refine ⟨writeLine line :: writeLine "<A>bort, <CR> Continue..>".toList :: before, answers',
          ?_, ?_⟩
        · simp only [List.forall_mem_cons]
          exact ⟨hwritten, hprompt, hbefore⟩
        · rw [halone, Script.Outcome.after_after, Script.Outcome.after_after]
          rfl
    · obtain ⟨before, answers', hbefore, halone⟩ := ih answers (sincePrompt + 1) hlines
      exact ⟨writeLine line :: before, answers', List.forall_mem_cons.mpr ⟨hwritten, hbefore⟩,
        by rw [halone, Script.Outcome.after_after]; rfl⟩

/-- But for a personal text, the hub throws nothing. -/
theorem alone_advance {event : ConversEvent}
    (hevent : ∀ sessionId personal, event ≠ .localSetPersonal sessionId personal)
    (next : List ConversAction → ConsoleScript) (state : Unit) :
    (advance event next).alone (fun state _ => state) clock answers state h =
      (next (h.advance (clock 0) event).actions).alone (fun state _ => state)
        (fun n => clock (n + 1)) answers state (Hub.step h (clock 0, event)) := by
  rw [advance, Script.alone]
  split
  · rename_i hfault
    obtain ⟨sessionId, personal, heq⟩ := (Hub.advance_fault (clock 0) hfault).1
    exact absurd heq (hevent sessionId personal)
  · rfl

/-- **A greeting alone**: the hub takes the join, and the default channel is told. -/
theorem alone_greetAndJoin (config : ConverseConsoleConfig) (sessionId call : Text)
    (state : Unit) :
    ∃ before after : List Text, (∀ line ∈ before, line.head? ≠ some 'Y') ∧
      (∀ line ∈ after, line.head? ≠ some 'Y') ∧
      (greetAndJoin config sessionId call).alone (fun state _ => state) clock answers state h =
        ⟨state, Hub.step h (clock 0, .localJoin sessionId call config.defaultChannel),
          before ++ writeLine (onChannel config.defaultChannel) :: after, none⟩ := by
  rw [greetAndJoin, alone_tell, alone_advance clock answers h (by simp), alone_tell, render]
  obtain ⟨before, answers', hbefore, halone⟩ := alone_paged (fun n => clock (n + 1)) answers
    (Hub.step h (clock 0, .localJoin sessionId call config.defaultChannel)) config.pageLength 0
    (fun line hline => head?_of_mem_render hline)
    (tell (if config.isClassic then "Classic mode. Type /help for commands.".toList
      else "Type 'help' for commands, or just type to chat.".toList) .done) state
  rw [halone, alone_tell, Script.alone, Script.Outcome.after_after,
    Script.Outcome.after_after, Script.Outcome.after_after, Script.Outcome.after_of_nil]
  refine ⟨[writeLine ('[' :: config.nodeName ++ " convers] Welcome ".toList ++ call ++ ['.'])],
    before ++ [writeLine (if config.isClassic then "Classic mode. Type /help for commands.".toList
      else "Type 'help' for commands, or just type to chat.".toList)],
    List.forall_mem_singleton.mpr (head?_ne_of_some rfl (by decide)),
    List.forall_mem_append.mpr ⟨hbefore, List.forall_mem_singleton.mpr ?_⟩, ?_⟩
  · rcases config.isClassic with _ | _
    · exact head?_ne_of_some (head?_append_of_some rfl) (by decide)
    · exact head?_ne_of_some (head?_append_of_some rfl) (by decide)
  · simp only [List.append_assoc, List.cons_append, List.nil_append, Option.or_none]

/-- **A `join` alone**: the hub takes the switch, and the channel is told. -/
theorem alone_handleJoin (config : ConverseConsoleConfig) (sessionId : Text) (channel : Int32)
    (state : Unit) :
    ∃ before : List Text, (∀ line ∈ before, line.head? ≠ some 'Y') ∧
      (handle config sessionId (.join (some channel))).alone (fun state _ => state) clock answers
          state h =
        ⟨state, Hub.step h (clock 0, .localSwitchChannel sessionId channel),
          before ++ [writeLine (onChannel channel)], none⟩ := by
  rw [handle, handleJoin, advanceAndRender, alone_advance clock answers h (by simp), render]
  obtain ⟨before, answers', hbefore, halone⟩ := alone_paged (fun n => clock (n + 1)) answers
    (Hub.step h (clock 0, .localSwitchChannel sessionId channel)) config.pageLength 0
    (fun line hline => head?_of_mem_render hline) (tell (onChannel channel) .done) state
  rw [halone, alone_tell, Script.alone, Script.Outcome.after_after]
  exact ⟨before, hbefore, Script.Outcome.after_of_nil ..⟩

/-- **A `join` to no channel alone**: the channel of the session is told, or the default. -/
theorem alone_handleJoin_none (config : ConverseConsoleConfig) (sessionId : Text) (state : Unit) :
    (handle config sessionId (.join none)).alone (fun state _ => state) clock answers state h =
      ⟨state, h, [writeLine (onChannel (channelOf config sessionId h))], none⟩ := by
  rw [handle, handleJoin, look, Script.alone, alone_tell, Script.alone]
  exact Script.Outcome.after_of_nil ..

end ConverseConsoleSession

/-! ### The page of a channel -/

/-- The session of a callsign has been idle for too long. -/
def Shared.isStale (w : Shared) (now : DateTimeOffset) (call : Text) : Bool :=
  (w.webSession? call).any fun session =>
    session.callsign = call && now.ticks - session.lastSeen.ticks ≥ WebChatSessions.idleTimeout

/-- The session of a callsign is there, and stays. -/
def Shared.stays (w : Shared) (now : DateTimeOffset) (call : Text) : Bool :=
  (w.webSession? call).isSome && !w.isStale now call

/-- What is shared without a session that has been swept. -/
def Shared.sweepOut (w : Shared) (session : WebSession) : Shared :=
  { w with sessionOf := w.sessionOf.remove session.callsign }.unregister
    (WebChatSessions.webId session.callsign)

namespace WebChatSessions

theorem webId_injective : Function.Injective webId := fun _ _ h => List.append_cancel_left h

section Alone

variable (clock : ℕ → DateTimeOffset) (answers : ℕ → Text) (h : Hub) (w : Shared)

/-- What a sweep leaves of a callsign: its session, or nothing if that was idle for too long. -/
structure Swept (now : DateTimeOffset) (call : Text) (h : Hub) (w : Shared) (h' : Hub)
    (w' : Shared) : Prop where
  gates : h.SameGates h'
  find? : h'.sessions.find? (webId call) =
    if w.isStale now call then none else h.sessions.find? (webId call)
  webSession? : w'.webSession? call = if w.isStale now call then none else w.webSession? call

variable {now : DateTimeOffset} {call : Text} {sessions : List WebSession}

/-- A session is removed from its callsign, and from no other. -/
theorem webSession?_sweepOut (session : WebSession) :
    (w.sweepOut session).webSession? call =
      if call = session.callsign then none else w.webSession? call := by
  rw [Shared.webSession?, Shared.sweepOut, Shared.unregister, Table.Dict.get?_remove]
  split
  · rfl
  · rfl

/-- A session that is idle is the stale one of its callsign. -/
theorem isStale_of_isIdle {session : WebSession}
    (hsession : w.webSessions.find? session.ref = some session)
    (hidle : isIdle now w session = true) : w.isStale now session.callsign = true := by
  simp only [isIdle, hsession, Option.any_some, Bool.and_eq_true, decide_eq_true_eq] at hidle
  simp [Shared.isStale, Shared.webSession?, hidle.2, hsession, hidle.1]

/-- The stale one is idle. -/
theorem isIdle_of_isStale {session : WebSession} (hfind : w.webSession? call = some session)
    (hstale : w.isStale now call = true) :
    isIdle now w session = true ∧ session.callsign = call := by
  simp only [Shared.isStale, hfind, Option.any_some, Bool.and_eq_true, decide_eq_true_eq] at hstale
  obtain ⟨ref, href, hsession⟩ := Option.bind_eq_some_iff.mp hfind
  obtain rfl : session.ref = ref := Table.key_of_find? hsession
  simp [isIdle, hsession, hstale.1, hstale.2, href]

/-- After the removal only another callsign can have a stale session. -/
theorem isStale_sweepOut (session : WebSession) :
    (w.sweepOut session).isStale now call =
      if call = session.callsign then false else w.isStale now call := by
  rw [Shared.isStale, webSession?_sweepOut]
  split
  · rfl
  · rfl

/-- **A sweep alone.** It changes no gate, as the sessions it has leave are those of this user only.
-/
theorem alone_sweep
    (hsessions : ∀ session ∈ sessions, w.webSessions.find? session.ref = some session)
    (hstale : w.isStale now call = true → ∃ session ∈ sessions, w.webSession? call = some session)
    (next : SessionScript) :
    ∃ (clock' : ℕ → DateTimeOffset) (h' : Hub) (w' : Shared), Swept now call h w h' w' ∧
      (sweep now sessions next).alone Hub.step clock answers h w =
        next.alone Hub.step clock' answers h' w' := by
  induction sessions generalizing clock h w with
  | nil =>
    have hfresh : w.isStale now call = false := by
      rw [Bool.eq_false_iff]
      intro htrue
      obtain ⟨session, hmem, -⟩ := hstale htrue
      cases hmem
    exact ⟨clock, h, w, ⟨.refl h, by simp [hfresh], by simp [hfresh]⟩, rfl⟩
  | cons session sessions ih =>
    obtain ⟨hsession, hsessions⟩ := List.forall_mem_cons.mp hsessions
    rw [sweep, Script.alone]
    rcases hidle : isIdle now w session with _ | _
    · -- it stays, so it is not the stale one
      refine ih _ h w hsessions fun htrue => ?_
      obtain ⟨session', hmem, hfind⟩ := hstale htrue
      rcases List.mem_cons.mp hmem with rfl | hmem
      · rw [(isIdle_of_isStale w hfind htrue).1] at hidle
        cases hidle
      · exact ⟨session', hmem, hfind⟩
    · -- it is signed off
      simp only [if_true, Script.alone]
      have hrest : (w.sweepOut session).isStale now call = true →
          ∃ session' ∈ sessions, (w.sweepOut session).webSession? call = some session' := by
        intro htrue
        rw [isStale_sweepOut] at htrue
        rw [webSession?_sweepOut]
        split at htrue
        · cases htrue
        · rename_i hne
          rw [if_neg hne]
          obtain ⟨session', hmem, hfind⟩ := hstale htrue
          rcases List.mem_cons.mp hmem with rfl | hmem
          · exact absurd (isIdle_of_isStale w hfind htrue).2.symm hne
          · exact ⟨session', hmem, hfind⟩
      obtain ⟨clock', h', w', hswept, halone⟩ := ih (fun n => clock (n + 1 + 1 + 1))
        (Hub.step h (clock (0 + 1), .localLeave (webId session.callsign)
          "web session idle".toList)) (w.sweepOut session) hsessions hrest
      refine ⟨clock', h', w', ?_, halone⟩
      obtain ⟨hgates, hfind, hentry⟩ := hswept
      rw [isStale_sweepOut, Hub.find?_localLeave] at hfind
      rw [isStale_sweepOut, webSession?_sweepOut] at hentry
      refine ⟨(Hub.sameGates_localLeave _ _ _).trans hgates, ?_, ?_⟩
      · rw [hfind]
        by_cases hcall : call = session.callsign
        · rw [hcall]
          simp [isStale_of_isIdle w hsession hidle]
        · simp [hcall, webId_injective.eq_iff]
      · rw [hentry]
        by_cases hcall : call = session.callsign
        · rw [hcall]
          simp [isStale_of_isIdle w hsession hidle]
        · simp [hcall]

/-- Every session that a callsign has is among those the sweep looks at. -/
theorem alone_sweepIdle (call : Text) (next : SessionScript) :
    ∃ (clock' : ℕ → DateTimeOffset) (h' : Hub) (w' : Shared), Swept (clock 0) call h w h' w' ∧
      (sweepIdle next).alone Hub.step clock answers h w =
        next.alone Hub.step clock' answers h' w' := by
  rw [sweepIdle, Script.alone]
  refine alone_sweep _ answers h w (fun session hmem => ?_) (fun hstale => ?_) next
  · obtain ⟨entry, -, hfind⟩ := List.mem_filterMap.mp hmem
    rw [(Table.key_of_find? hfind : session.ref = entry.2)]
    exact hfind
  · obtain ⟨session, hfind, -⟩ := (Option.any_eq_true _ _).mp hstale
    obtain ⟨ref, href, hsession⟩ := Option.bind_eq_some_iff.mp hfind
    obtain ⟨entry, hentry, rfl⟩ := Option.map_eq_some_iff.mp href
    exact ⟨session, List.mem_filterMap.mpr ⟨entry, Table.mem_of_find? hentry, hsession⟩, hfind⟩

/-- **A session is there, or a new one joins.** -/
theorem alone_getOrCreate (defaultChannel : Int32) (call : Text) (next : ℕ → SessionScript) :
    ∃ (clock' : ℕ → DateTimeOffset) (now : DateTimeOffset) (h' : Hub) (w' : Shared) (ref : ℕ),
      h.SameGates h' ∧
      h'.sessions.find? (webId call) =
        (if w.isStale (clock 0) call then none else h.sessions.find? (webId call)) ∧
      (getOrCreate defaultChannel call next).alone Hub.step clock answers h w =
        (next ref).alone Hub.step clock' answers
          (if w.stays (clock 0) call then h'
            else Hub.step h' (now, .localJoin (webId call) call defaultChannel)) w' := by
  rw [getOrCreate]
  generalize hscript : Script.act _ _ = script
  obtain ⟨clock', h', w', hswept, halone⟩ := alone_sweepIdle clock answers h w call script
  rw [halone, ← hscript, Script.alone]
  have hstays : w.stays (clock 0) call = (w'.webSession? call).isSome := by
    rw [hswept.webSession?, Shared.stays]
    rcases w.isStale (clock 0) call with _ | _
    · simp
    · simp
  rw [hstays]
  rcases w'.webSession? call with _ | session
  · exact ⟨_, _, h', _, _, hswept.gates, hswept.find?, rfl⟩
  · exact ⟨_, clock' 0, h', _, _, hswept.gates, hswept.find?, rfl⟩

/-- Whether the user is an operator is asked, and that is all. -/
theorem alone_isOperator (call : Text) (next : Bool → SessionScript) :
    ∃ (clock' : ℕ → DateTimeOffset) (isOp : Bool),
      (isOperator call next).alone Hub.step clock answers h w =
        (next isOp).alone Hub.step clock' answers h w := by
  rw [isOperator, Script.alone]
  rcases w.webSession? call with _ | session
  · exact ⟨_, false, rfl⟩
  · exact ⟨_, _, rfl⟩

end Alone

end WebChatSessions

/-! ### The requests -/

/-- A request to join or to switch. -/
inductive ChannelRequest where
  /-- A radio link comes. -/
  | greeting (config : RfSessionConfig) (sessionId remoteCallsign : Text)
  /-- A `join` of a radio link. -/
  | join (config : RfSessionConfig) (sessionId : Text) (channel : Option Int32)
  /-- A terminal beside the hub comes. -/
  | consoleGreeting (config : ConverseConsoleConfig) (sessionId remoteCallsign : Text)
  /-- A `join` of a terminal beside the hub. -/
  | consoleJoin (config : ConverseConsoleConfig) (sessionId : Text) (channel : Option Int32)
  /-- The page of a channel. -/
  | channelView (options : WebChat.Options) (pathPrefix callsign : Text) (channel : Option Int32)
      (operResult : Option Text)

namespace ChannelRequest

/-- The session of the user. -/
def sessionId : ChannelRequest → Text
  | greeting _ sessionId _ | join _ sessionId _ => sessionId
  | consoleGreeting _ sessionId _ | consoleJoin _ sessionId _ => sessionId
  | channelView _ _ callsign _ _ => WebChatSessions.webId (Callsigns.normalize callsign)

/-- What a request comes to alone: the hub after it, what is written and the page. -/
def outcome (clock : ℕ → DateTimeOffset) (answers : ℕ → Text) (h : Hub) (w : Shared) :
    ChannelRequest → Hub × List Text × Option WebChat.ChannelView
  | greeting config sessionId remoteCallsign =>
    let o := (RfUserSession.greetAndJoin config sessionId
      (Callsigns.normalize remoteCallsign)).alone Hub.step clock answers h w
    (o.state, o.written, o.reported)
  | join config sessionId channel =>
    let o := (RfUserSession.handle config sessionId (.join channel)).alone Hub.step clock answers
      h w
    (o.state, o.written, o.reported)
  | consoleGreeting config sessionId remoteCallsign =>
    let o := (ConverseConsoleSession.greetAndJoin config sessionId
      (Callsigns.normalize remoteCallsign)).alone (fun state _ => state) clock answers () h
    (o.shared, o.written, none)
  | consoleJoin config sessionId channel =>
    let o := (ConverseConsoleSession.handle config sessionId (.join channel)).alone
      (fun state _ => state) clock answers () h
    (o.shared, o.written, none)
  | channelView options pathPrefix callsign channel operResult =>
    let o := (WebChat.channelViewAsync options pathPrefix (Callsigns.normalize callsign) channel
      operResult).alone Hub.step clock answers h w
    (o.state, o.written, o.reported)

/-- The user is told that he is on a channel: a line has the number, or his page. -/
def Tells (clock : ℕ → DateTimeOffset) (answers : ℕ → Text) (h : Hub) (w : Shared)
    (r : ChannelRequest) (channel : Int32) : Prop :=
  RfUserSession.writeLine (RfUserSession.onChannel channel) ∈ (r.outcome clock answers h w).2.1 ∨
    ∃ view, (r.outcome clock answers h w).2.2 = some view ∧ view.channel = channel

/-- **What the user is told is what the hub has**: his session is on every channel he is told. -/
def IsTruthful (clock : ℕ → DateTimeOffset) (answers : ℕ → Text) (h : Hub) (w : Shared)
    (r : ChannelRequest) : Prop :=
  ∀ channel, r.Tells clock answers h w channel →
    (r.outcome clock answers h w).1.IsOn r.sessionId channel

/-- A session may be on the channel that is asked for, if one is. -/
def MayBeThere (h : Hub) (id : Text) : Option Int32 → Prop
  | some channel => h.MayBeOn id channel
  | none => (h.sessions.find? id).isSome = true

/-- **The hub grants a request**, as it is when the request comes. -/
def IsGranted (h : Hub) (w : Shared) (now : DateTimeOffset) : ChannelRequest → Prop
  | greeting config sessionId remoteCallsign =>
    h.admits config.defaultChannel (Callsigns.normalize remoteCallsign) = true ∨
      h.IsOn sessionId config.defaultChannel
  | join _ sessionId channel => MayBeThere h sessionId channel
  | consoleGreeting config sessionId remoteCallsign =>
    h.admits config.defaultChannel (Callsigns.normalize remoteCallsign) = true ∨
      h.IsOn sessionId config.defaultChannel
  | consoleJoin _ sessionId channel => MayBeThere h sessionId channel
  | channelView options _ callsign channel _ =>
    let call := Callsigns.normalize callsign
    let requested := channel.filter ChannelNumber.isValid
    if w.stays now call = true then MayBeThere h (WebChatSessions.webId call) requested
    else if h.admits options.defaultChannel call = true then
      ∀ req ∈ requested, options.defaultChannel = req ∨ h.admits req call = true
    else w.isStale now call = false ∧ MayBeThere h (WebChatSessions.webId call) requested

section Truthful

variable {clock : ℕ → DateTimeOffset} {answers : ℕ → Text} {h : Hub} {w : Shared}
  {r : ChannelRequest}

open RfUserSession (writeLine onChannel)

/-- One line tells a channel. -/
theorem isTruthful_iff_of_lines {h' : Hub} (before after : List Text) {channel : Int32}
    (hbefore : ∀ line ∈ before, line.head? ≠ some 'Y')
    (hafter : ∀ line ∈ after, line.head? ≠ some 'Y')
    (hout : r.outcome clock answers h w =
      (h', before ++ writeLine (onChannel channel) :: after, none)) :
    r.IsTruthful clock answers h w ↔ h'.IsOn r.sessionId channel := by
  have htells : ∀ told, r.Tells clock answers h w told ↔ told = channel := by
    intro told
    rw [Tells, hout]
    simp only [RfUserSession.mem_onChannel_iff hbefore hafter, reduceCtorEq, false_and,
      exists_false, or_false]
  rw [IsTruthful, hout]
  simp only [htells, forall_eq]

/-- One page tells a channel. -/
theorem isTruthful_iff_of_page {h' : Hub} {view : WebChat.ChannelView}
    (hout : r.outcome clock answers h w = (h', [], some view)) :
    r.IsTruthful clock answers h w ↔ h'.IsOn r.sessionId view.channel := by
  rw [IsTruthful]
  simp only [Tells, hout, List.not_mem_nil, Option.some.injEq, exists_eq_left', false_or,
    forall_eq']

/-- What is told of the channel of a session is right when there is one. -/
theorem isOn_getD_iff (h : Hub) (id : Text) (otherwise : Int32) :
    h.IsOn id (((h.sessions.find? id).map LocalSession.channel).getD otherwise) ↔
      (h.sessions.find? id).isSome = true := by
  rw [Hub.IsOn]
  rcases h.sessions.find? id with _ | s
  · simp
  · simp

/-- What a request for a page has left to do when the channel is known. -/
def pageOf (o : WebChat.Options) (pathPrefix call : Text) (operResult : Option Text)
    (channel : Int32) : SessionScript :=
  .snapshot fun h _ =>
    let ch := h.getChannel channel
    WebChatSessions.isOperator call fun isOperator => .report
      { options := o, pathPrefix := pathPrefix, call := call, channel := channel,
        present := ch.users, topic := ch.topic, topicBy := ch.topicSetBy, modes := ch.modes,
        isOperator := isOperator, operResult := operResult }

/-- The page shows the channel. -/
theorem alone_pageOf (o : WebChat.Options) (pathPrefix call : Text) (operResult : Option Text)
    (channel : Int32) (clock : ℕ → DateTimeOffset) (answers : ℕ → Text) (h : Hub) (w : Shared) :
    ∃ view : WebChat.ChannelView, view.channel = channel ∧
      (pageOf o pathPrefix call operResult channel).alone Hub.step clock answers h w =
        ⟨h, w, [], some view⟩ := by
  rw [pageOf, Script.alone]
  obtain ⟨clock', isOp, halone⟩ := WebChatSessions.alone_isOperator clock answers h w call
    fun isOperator => .report
      { options := o, pathPrefix := pathPrefix, call := call, channel := channel,
        present := (h.getChannel channel).users, topic := (h.getChannel channel).topic,
        topicBy := (h.getChannel channel).topicSetBy, modes := (h.getChannel channel).modes,
        isOperator := isOperator, operResult := operResult }
  exact ⟨_, rfl, halone⟩

/-- A page for no channel. -/
theorem channelViewAsync_of_none {o : WebChat.Options} {pathPrefix call : Text}
    {operResult : Option Text} {channel : Option Int32}
    (hreq : channel.filter ChannelNumber.isValid = none) :
    WebChat.channelViewAsync o pathPrefix call channel operResult =
      WebChatSessions.ensureJoined o.defaultChannel call (pageOf o pathPrefix call operResult) := by
  rcases channel with _ | c
  · rfl
  · have hinvalid := Option.filter_eq_none_iff.mp hreq c rfl
    rw [WebChat.channelViewAsync]
    dsimp only
    rw [if_neg hinvalid]
    rfl

/-- A page for a channel. -/
theorem channelViewAsync_of_some {o : WebChat.Options} {pathPrefix call : Text}
    {operResult : Option Text} {channel : Option Int32} {req : Int32}
    (hreq : channel.filter ChannelNumber.isValid = some req) :
    WebChat.channelViewAsync o pathPrefix call channel operResult =
      WebChatSessions.joinChannel o.defaultChannel call req
        (pageOf o pathPrefix call operResult req) := by
  obtain ⟨rfl, hvalid⟩ := Option.filter_eq_some_iff.mp hreq
  rw [WebChat.channelViewAsync]
  dsimp only
  rw [if_pos hvalid]
  rfl

variable (clock answers h w) in
/-- **A page for no channel alone**: it shows the channel of the session. It makes a session if
there is none, so it may come with a join to the default channel. -/
theorem alone_ensureJoined (o : WebChat.Options) (pathPrefix call : Text)
    (operResult : Option Text) :
    ∃ (h' : Hub) (now : DateTimeOffset) (w' : Shared) (view : WebChat.ChannelView)
        (otherwise : Int32), h.SameGates h' ∧
      h'.sessions.find? (WebChatSessions.webId call) =
        (if w.isStale (clock 0) call then none
          else h.sessions.find? (WebChatSessions.webId call)) ∧
      let start := if w.stays (clock 0) call then h'
        else Hub.step h' (now, .localJoin (WebChatSessions.webId call) call o.defaultChannel)
      (WebChatSessions.ensureJoined o.defaultChannel call
          (pageOf o pathPrefix call operResult)).alone Hub.step clock answers h w =
        ⟨start, w', [], some view⟩ ∧
      view.channel = ((start.sessions.find? (WebChatSessions.webId call)).map
        LocalSession.channel).getD otherwise := by
  obtain ⟨clock', now, h', w', ref, hgates, hfind, halone⟩ :=
    WebChatSessions.alone_getOrCreate clock answers h w o.defaultChannel call fun ref =>
      .snapshot fun h w => pageOf o pathPrefix call operResult
        (WebChatSessions.channelOf o.defaultChannel call ref h w)
  obtain ⟨view, hchannel, hpage⟩ := alone_pageOf o pathPrefix call operResult
    (WebChatSessions.channelOf o.defaultChannel call ref (if w.stays (clock 0) call then h'
      else Hub.step h' (now, .localJoin (WebChatSessions.webId call) call o.defaultChannel)) w')
    clock' answers (if w.stays (clock 0) call then h'
      else Hub.step h' (now, .localJoin (WebChatSessions.webId call) call o.defaultChannel)) w'
  refine ⟨h', now, w', view, _, hgates, hfind, ?_, hchannel⟩
  rw [WebChatSessions.ensureJoined, halone, Script.alone]
  exact hpage

variable (clock answers h w) in
/-- **A page for a channel alone**: the session switches, and the channel is shown. It is shown
whatever the hub has answered to the switch. -/
theorem alone_joinChannel (o : WebChat.Options) (pathPrefix call : Text)
    (operResult : Option Text) {req : Int32} (hvalid : ChannelNumber.isValid req = true) :
    ∃ (h' : Hub) (now now' : DateTimeOffset) (w' : Shared) (view : WebChat.ChannelView),
      h.SameGates h' ∧
      h'.sessions.find? (WebChatSessions.webId call) =
        (if w.isStale (clock 0) call then none
          else h.sessions.find? (WebChatSessions.webId call)) ∧
      let start := if w.stays (clock 0) call then h'
        else Hub.step h' (now, .localJoin (WebChatSessions.webId call) call o.defaultChannel)
      (WebChatSessions.joinChannel o.defaultChannel call req
          (pageOf o pathPrefix call operResult req)).alone Hub.step clock answers h w =
        ⟨Hub.step start (now', .localSwitchChannel (WebChatSessions.webId call) req), w', [],
          some view⟩ ∧
      view.channel = req := by
  rw [WebChatSessions.joinChannel, hvalid, Bool.not_true, if_neg Bool.false_ne_true]
  generalize hscript : (fun ref => Script.submit _ _ : ℕ → SessionScript) = script
  obtain ⟨clock', now, h', w', ref, hgates, hfind, halone⟩ :=
    WebChatSessions.alone_getOrCreate clock answers h w o.defaultChannel call script
  rw [halone, ← hscript, Script.alone, Script.alone]
  obtain ⟨view, hchannel, hpage⟩ := alone_pageOf o pathPrefix call operResult req _ answers
    (Hub.step (if w.stays (clock 0) call then h'
      else Hub.step h' (now, .localJoin (WebChatSessions.webId call) call o.defaultChannel))
        (clock' 0, .localSwitchChannel (WebChatSessions.webId call) req)) _
  exact ⟨h', now, clock' 0, _, view, hgates, hfind, hpage, hchannel⟩

/-- The session a page starts from may be where the page is to be, or a newcomer may. -/
theorem mayBeThere_iff {h' : Hub} {call : Text} {requested : Option Int32} {home : Int32}
    (hvalid : ∀ req ∈ requested, ChannelNumber.isValid req = true) (hgates : h.SameGates h')
    {stale : Bool} (hfind : h'.sessions.find? (WebChatSessions.webId call) =
      if stale then none else h.sessions.find? (WebChatSessions.webId call))
    (hcall : Callsigns.normalize call = call) (now : DateTimeOffset) :
    MayBeThere (Hub.step h' (now, .localJoin (WebChatSessions.webId call) call home))
        (WebChatSessions.webId call) requested ↔
      if h.admits home call = true then
        ∀ req ∈ requested, home = req ∨ h.admits req call = true
      else stale = false ∧ MayBeThere h (WebChatSessions.webId call) requested := by
  have hadmits := hgates.admits_eq call home
  split
  · rename_i hadm
    rw [← hadmits, ← hcall] at hadm
    rcases requested with _ | req
    · refine iff_of_true ?_ (by simp)
      have hon := (Hub.isOn_localJoin_iff now (WebChatSessions.webId call) call home).mpr
        (Or.inl hadm)
      obtain ⟨s, hs, -⟩ := hon
      rw [MayBeThere, hs]
      rfl
    · rw [MayBeThere, Hub.mayBeOn_localJoin_of_admits now _ call req hadm (hvalid req rfl), hcall,
        hgates.admits_eq]
      simp
  · rename_i hadm
    have hsame : Hub.step h' (now, .localJoin (WebChatSessions.webId call) call home) = h' := by
      rw [Hub.step, Hub.advance, (Hub.localJoin_of_not_admits now _ _).1]
      rw [hcall, hadmits]
      exact Bool.eq_false_iff.mpr hadm
    rw [hsame]
    rcases stale with _ | _
    · rcases requested with _ | req
      · simp [MayBeThere, hfind]
      · simp only [MayBeThere, true_and]
        exact hgates.mayBeOn_iff _ _ hfind
    · rcases requested with _ | req
      · simp [MayBeThere, hfind]
      · simp [MayBeThere, Hub.MayBeOn, hfind]

/-- **A page alone.** What comes before it has not changed who is let in where. -/
theorem isTruthful_channelView_iff (o : WebChat.Options) (pathPrefix callsign : Text)
    (channel : Option Int32) (operResult : Option Text) :
    (channelView o pathPrefix callsign channel operResult).IsTruthful clock answers h w ↔
      (channelView o pathPrefix callsign channel operResult).IsGranted h w (clock 0) := by
  obtain ⟨call, hcallsign⟩ : ∃ call, Callsigns.normalize callsign = call := ⟨_, rfl⟩
  have hcall : Callsigns.normalize call = call := by
    rw [← hcallsign, Callsigns.normalize_normalize]
  -- whichever way, the session the request starts from is asked for
  have hstart : ∃ (h' : Hub) (now : DateTimeOffset), h.SameGates h' ∧
      h'.sessions.find? (WebChatSessions.webId call) =
        (if w.isStale (clock 0) call then none
          else h.sessions.find? (WebChatSessions.webId call)) ∧
      ((channelView o pathPrefix callsign channel operResult).IsTruthful clock answers h w ↔
        MayBeThere (if w.stays (clock 0) call then h'
            else Hub.step h' (now, .localJoin (WebChatSessions.webId call) call o.defaultChannel))
          (WebChatSessions.webId call) (channel.filter ChannelNumber.isValid)) := by
    rcases hreq : channel.filter ChannelNumber.isValid with _ | req
    · obtain ⟨h', now, w', view, otherwise, hgates, hfind, halone, hchannel⟩ :=
        alone_ensureJoined clock answers h w o pathPrefix call operResult
      refine ⟨h', now, hgates, hfind, ?_⟩
      rw [isTruthful_iff_of_page
        (by rw [outcome, hcallsign, channelViewAsync_of_none hreq, halone]),
        ChannelRequest.sessionId, hcallsign, hchannel]
      exact isOn_getD_iff ..
    · have hvalid := (Option.filter_eq_some_iff.mp hreq).2
      obtain ⟨h', now, now', w', view, hgates, hfind, halone, hchannel⟩ :=
        alone_joinChannel clock answers h w o pathPrefix call operResult hvalid
      refine ⟨h', now, hgates, hfind, ?_⟩
      rw [isTruthful_iff_of_page
        (by rw [outcome, hcallsign, channelViewAsync_of_some hreq, halone]),
        ChannelRequest.sessionId, hcallsign, hchannel]
      exact Hub.isOn_localSwitchChannel_iff ..
  obtain ⟨h', now, hgates, hfind, htruthful⟩ := hstart
  rw [htruthful, IsGranted, hcallsign]
  rcases hstays : w.stays (clock 0) call with _ | _
  · simp only [Bool.false_eq_true, if_false]
    refine mayBeThere_iff (fun req hreq => ?_) hgates hfind hcall now
    exact (Option.mem_filter_iff.mp hreq).2
  · simp only [if_true]
    have hfresh : w.isStale (clock 0) call = false := by
      simp only [Shared.stays, Bool.and_eq_true, Bool.not_eq_true'] at hstays
      exact hstays.2
    rw [hfresh] at hfind
    rcases channel.filter ChannelNumber.isValid with _ | req
    · rw [MayBeThere, MayBeThere, hfind]
      simp
    · exact hgates.mayBeOn_iff _ _ hfind

/-- **What a user is told is what the hub has iff the hub grants the request**, in every state and
for every request, when nothing else happens. The surfaces differ in what they ask the hub, but none
of them looks at its answer. -/
theorem isTruthful_iff (clock : ℕ → DateTimeOffset) (answers : ℕ → Text) (h : Hub) (w : Shared)
    (r : ChannelRequest) : r.IsTruthful clock answers h w ↔ r.IsGranted h w (clock 0) := by
  cases r with
  | greeting config sessionId remoteCallsign =>
    obtain ⟨before, after, hbefore, hafter, halone⟩ := RfUserSession.alone_greetAndJoin clock
      answers h w config sessionId (Callsigns.normalize remoteCallsign)
    rw [isTruthful_iff_of_lines before after hbefore hafter (by rw [outcome, halone]), IsGranted]
    rw [ChannelRequest.sessionId, Hub.isOn_localJoin_iff, Callsigns.normalize_normalize]
  | join config sessionId channel =>
    rcases channel with _ | channel
    · rw [isTruthful_iff_of_lines [] [] (by simp) (by simp)
        (by rw [outcome, RfUserSession.alone_join_none]; rfl)]
      exact isOn_getD_iff ..
    · obtain ⟨before, hbefore, halone⟩ := RfUserSession.alone_join clock answers h w config
        sessionId channel
      rw [isTruthful_iff_of_lines before [] hbefore (by simp) (by rw [outcome, halone])]
      exact Hub.isOn_localSwitchChannel_iff ..
  | consoleGreeting config sessionId remoteCallsign =>
    obtain ⟨before, after, hbefore, hafter, halone⟩ :=
      ConverseConsoleSession.alone_greetAndJoin clock answers h config sessionId
        (Callsigns.normalize remoteCallsign) ()
    rw [isTruthful_iff_of_lines before after hbefore hafter (by rw [outcome, halone]), IsGranted]
    rw [ChannelRequest.sessionId, Hub.isOn_localJoin_iff, Callsigns.normalize_normalize]
  | consoleJoin config sessionId channel =>
    rcases channel with _ | channel
    · rw [isTruthful_iff_of_lines [] [] (by simp) (by simp)
        (by rw [outcome, ConverseConsoleSession.alone_handleJoin_none]; rfl)]
      exact isOn_getD_iff ..
    · obtain ⟨before, hbefore, halone⟩ := ConverseConsoleSession.alone_handleJoin clock answers h
        config sessionId channel ()
      rw [isTruthful_iff_of_lines before [] hbefore (by simp) (by rw [outcome, halone])]
      exact Hub.isOn_localSwitchChannel_iff ..
  | channelView o pathPrefix callsign channel operResult =>
    exact isTruthful_channelView_iff o pathPrefix callsign channel operResult

/-- The script of a request to the host. -/
def script : ChannelRequest → Option SessionScript
  | greeting config sessionId remoteCallsign =>
    some (RfUserSession.greetAndJoin config sessionId (Callsigns.normalize remoteCallsign))
  | join config sessionId channel =>
    some (RfUserSession.handle config sessionId (.join channel))
  | consoleGreeting .. | consoleJoin .. => none
  | channelView options pathPrefix callsign channel operResult =>
    some (WebChat.channelViewAsync options pathPrefix (Callsigns.normalize callsign) channel
      operResult)

/-- **In the machine a request that nothing disturbs comes to that**, when its task is done and the
queue is empty. So the law on requests that run alone is one on the host. -/
theorem outcome_of_undisturbed {n : Composition} {id : Text} {task task' : SessionTask}
    (hscript : r.script = some task.script) (htask : n.tasks.find? id = some task)
    (hwaiting : task.waiting = false) (hqueue : n.queue = []) (labels : List Composition.Label)
    (hof : ∀ label ∈ labels, label.IsOf id)
    (htask' : (Run.final Composition.step n labels).tasks.find? id = some task')
    (hdone : task'.script.isDone = true)
    (hqueue' : (Run.final Composition.step n labels).queue = []) (answers : ℕ → Text) :
    ∃ clock, r.outcome clock answers n.hub n.shared =
      ((Run.final Composition.step n labels).hub, n.saidIn labels) := by
  obtain ⟨clock, halone⟩ := Composition.alone_of_undisturbed htask hwaiting hqueue labels hof htask'
    hdone hqueue' answers
  refine ⟨clock, ?_⟩
  cases r with
  | greeting | join | channelView =>
    rw [outcome, Option.some.inj hscript, halone]
  | consoleGreeting | consoleJoin => cases hscript

end Truthful

/-! ### A channel by invitation -/

/-- Channel 9 is by invitation. -/
def exampleClosed : Hub :=
  Run.final Hub.step (Hub.fresh "NODE".toList) [(⟨0, zero_ticks_le⟩, .hostMode 9 "+i".toList)]

/-- A radio link is greeted there. -/
def exampleGreeting : ChannelRequest :=
  .greeting ⟨"NODE".toList, 9, 0, false, []⟩ "rf-1".toList "M0ABC".toList

/-- **A user is told that he is on a channel that did not let him in.** The channel is for the
invited only, and nobody has invited him. -/
theorem not_isTruthful_exampleGreeting :
    ¬ ∀ (hostName : Text) (store : Option ConversStore) (start : Hub),
      Hub.new hostName store = .ok start → ∀ (inputs : List Hub.Input)
        (clock : ℕ → DateTimeOffset) (answers : ℕ → Text) (w : Shared) (r : ChannelRequest),
          r.IsTruthful clock answers (Run.final Hub.step start inputs) w := by
  intro hall
  have htruthful := hall "NODE".toList none _ (@Hub.new_none "NODE".toList (by decide))
    [(⟨0, zero_ticks_le⟩, .hostMode 9 "+i".toList)] (fun _ => ⟨0, zero_ticks_le⟩) (fun _ => [])
    Shared.empty exampleGreeting 9
  have htells : RfUserSession.writeLine (RfUserSession.onChannel 9) ∈
      (exampleGreeting.outcome (fun _ => ⟨0, zero_ticks_le⟩) (fun _ => []) exampleClosed
        Shared.empty).2.1 := by
    decide +kernel
  obtain ⟨s, hs, -⟩ := htruthful (Or.inl htells)
  have hnone : (exampleGreeting.outcome (fun _ => ⟨0, zero_ticks_le⟩) (fun _ => []) exampleClosed
      Shared.empty).1.sessions.find? "rf-1".toList = none := by
    decide +kernel
  rw [show exampleGreeting.sessionId = "rf-1".toList from rfl] at hs
  rw [exampleClosed] at hnone
  rw [hnone] at hs
  cases hs

end ChannelRequest

end Convers
