import Convers.Core.Invitations
import Convers.Core.Refusals
import Convers.Host.Retold

/-!
# What the log gains from the sessions

The hub does not report whether it accepts an event of a session: the writer infers it from
the answer. A notice of a mode is a refusal, and an arrival is one that is announced.

| event | accepted when the session is there and | row |
|---|---|---|
| join | its callsign is admitted, there or not | on the channel entered |
| switch | it may go to the other channel | on the channel entered |
| message on a channel | not empty, not refused | on the channel it is on |
| private message | not empty | on no channel |
| away text | | on the channel it is on |
| sign-off | | on the channel left |

`Convers.ChatLogWriter.accepted` is the row that each event is to have, and a run leaves these
rows and no others, in order (`Convers.LoggedHub.log_exact`).
-/

namespace Convers

namespace ChatLogWriter

/-- A row of a session that is sent to nobody in particular. -/
def localRow (kind : ChatLogKind) (channel : Option Int32) (fromCall : Text) (text : Text) :
    ChatLogEntry :=
  { kind := kind, channel := channel, fromCall := fromCall, toCall := none, origin := .ofLocal,
    text := text }

/-- What is to be logged of an event: the row of one that the hub accepts, and nothing of one
that it refuses, that has no effect or that names no session. -/
def accepted (h : Hub) : ConversEvent → Option ChatLogEntry
  | .localJoin _ callsign channel =>
    if h.admits channel (Callsigns.normalize callsign) then
      some (localRow .presence (some channel) (Callsigns.normalize callsign) "joined".toList)
    else none
  | .localSwitchChannel sessionId channel => (h.sessions.find? sessionId).bind fun s =>
    if h.allows channel s then
      some (localRow .presence (some channel) s.callsign "joined".toList)
    else none
  | .localSay sessionId text => (h.sessions.find? sessionId).bind fun s =>
    if text ≠ [] ∧ (.moderated ∈ h.modesOf s.channel → s.isOperator = true) then
      some (localRow .channel (some s.channel) s.callsign text)
    else none
  | .localPrivateMessage sessionId toUser text => (h.sessions.find? sessionId).bind fun s =>
    if text ≠ [] then
      let target := Callsigns.normalize toUser
      some { localRow .privateMessage none s.callsign text with
             toCall := if target = [] then none else some target }
    else none
  | .localSetAway sessionId away => (h.sessions.find? sessionId).map fun s =>
    localRow .presence (some s.channel) s.callsign
      (if trim away = [] then "back".toList else "away: ".toList ++ trim away)
  | .localLeave sessionId reason => (h.sessions.find? sessionId).map fun s =>
    localRow .presence (some s.channel) s.callsign
      (if trim reason = [] then "left".toList else "left: ".toList ++ trim reason)
  | _ => none

/-- An entry as `AppendChatLog` stores it. -/
def stored (entry : ChatLogEntry) : ChatLogEntry :=
  { entry with
    fromCall := Callsigns.normalize entry.fromCall
    toCall := entry.toCall.bind fun call =>
      if call.length = 0 then none else some (Callsigns.normalize call) }

section Answers

variable {h : Hub} {now : DateTimeOffset} {e : ConversEvent}

/-- The writer takes a notice of a mode for a refusal. -/
theorem refused_eq_any (actions : List ConversAction) :
    refused actions = actions.any ConversAction.isModeNotice := by
  rw [refused]
  refine congrArg actions.any (funext fun a => ?_)
  cases a <;> rfl

/-- **What is announced was not refused**: a refusal is the whole answer. The writer reads the
answer alone, and this is why that is enough. -/
theorem refused_of_announces (hlocal : e.isLocal = true) (hann : h.announces e = true) :
    refused (h.advance now e).actions = false := by
  obtain ⟨before, send, after, hsend, hactions, -⟩ := (h.isShaped now hlocal).1 hann
  have hmem : send ∈ (h.advance now e).actions := by
    rw [hactions]
    exact List.mem_append_right _ List.mem_cons_self
  rw [refused_eq_any, Bool.eq_false_iff]
  intro hrefused
  obtain ⟨a, ha, hnotice⟩ := List.any_eq_true.mp hrefused
  rw [(h.refuses now e).noticed a ha hnotice, List.mem_singleton] at hmem
  have hcontent := Hub.isContent_announcement hsend
  rw [hmem] at hcontent
  cases a <;> first | cases hnotice; done | cases hcontent

/-- **An arrival is announced, or is none.** The writer tells an arrival from a refused one by what
is sent. -/
theorem announcedPresence_iff (hlocal : e.isLocal = true)
    (hsend : ∀ send ∈ h.announcement now e, announcedPresence [send] = true) :
    announcedPresence (h.advance now e).actions = h.announces e := by
  rcases hann : h.announces e with _ | _
  · have hdeliveries := (h.isShaped now hlocal).2 hann
    rw [announcedPresence, Bool.eq_false_iff]
    intro hpresence
    obtain ⟨a, ha, hannounced⟩ := List.any_eq_true.mp hpresence
    have hdeliver := hdeliveries a ha
    cases a <;> first | cases hannounced; done | cases hdeliver
  · obtain ⟨before, send, after, hsend', hactions, -⟩ := (h.isShaped now hlocal).1 hann
    have hone := hsend send hsend'
    rw [announcedPresence, List.any_cons, List.any_nil, Bool.or_false] at hone
    rw [announcedPresence, hactions, List.any_append, List.any_cons, hone, Bool.true_or,
      Bool.or_true]

end Answers

/-! ### One event -/

section Step

open HostLink

variable {h : Hub} {links : Links} {now : DateTimeOffset} {e : ConversEvent}

/-- An event that the log keeps is shown to the writer, when the sends succeed. -/
theorem drainEntry_of_isLoggableLocal (hloggable : isLoggableLocal e = true) :
    drainEntry links allSucceed now h e = (resolveLocalIdentity isLoggableLocal h e).bind
      fun (call, channel) => logLocal e call channel (h.advance now e).actions := by
  have hfault : (h.advance now e).fault = none := by
    rcases hfault : (h.advance now e).fault with _ | fault
    · rfl
    · obtain ⟨⟨sessionId, personal, rfl⟩, -⟩ := Hub.advance_fault now hfault
      cases hloggable
  rw [drainEntry, drainLocalEvent_of_ok links isLoggableLocal allSucceed now hfault,
    Trace.threw_andThen, threw_dispatchActions_allSucceed, Trace.threw_calls, Bool.or_false,
    if_neg Bool.false_ne_true]

/-- A session that the hub does not know is not shown to the writer. -/
theorem drainEntry_of_find?_eq_none {sessionId : Text} (hs : h.sessions.find? sessionId = none)
    (he : e.sessionId? = some sessionId) (hjoin : e.isJoin = false) :
    drainEntry links allSucceed now h e = none := by
  have hidentity : resolveLocalIdentity isLoggableLocal h e = none := by
    cases e <;> first
      | cases hjoin; done
      | cases he; done
      | cases he; simp [resolveLocalIdentity, hs]
  rw [drainEntry, hidentity, Option.bind_none, ite_self]

/-- A session that it knows is shown as it was before the event. -/
theorem drainEntry_of_find? {sessionId : Text} {s : LocalSession}
    (hs : h.sessions.find? sessionId = some s) (he : e.sessionId? = some sessionId)
    (hloggable : isLoggableLocal e = true) (hjoin : e.isJoin = false) :
    drainEntry links allSucceed now h e =
      logLocal e s.callsign s.channel (h.advance now e).actions := by
  have hidentity : resolveLocalIdentity isLoggableLocal h e = some (s.callsign, s.channel) := by
    cases e <;> first
      | cases hjoin; done
      | cases hloggable; done
      | cases he; simp [resolveLocalIdentity, isLoggableLocal, hs]
  rw [drainEntry_of_isLoggableLocal hloggable, hidentity, Option.bind_some]

/-- A refused message leaves no row, any other that is not empty does. -/
theorem refused_localSay {sessionId text : Text} {s : LocalSession}
    (hs : h.sessions.find? sessionId = some s) (htext : text ≠ []) :
    refused (h.advance now (.localSay sessionId text)).actions = true ↔
      ¬(.moderated ∈ h.modesOf s.channel → s.isOperator = true) := by
  rw [Hub.advance, Hub.localSay, hs]
  dsimp only
  rw [if_neg (mt List.length_eq_zero_iff.mp htext)]
  split
  · rename_i hmoderated
    refine iff_of_true rfl fun hoperator => ?_
    rw [hoperator hmoderated.1] at hmoderated
    cases hmoderated.2
  · rename_i hmoderated
    refine iff_of_false ?_ (not_not.mpr fun hmode => ?_)
    · rw [refused_eq_any, Bool.not_eq_true, List.any_eq_false]
      intro a ha
      rcases List.mem_append.mp ha with ha | ha
      · split at ha
        · cases ha
        · rw [List.mem_singleton.mp ha]
          exact Bool.false_ne_true
      · obtain ⟨t, -, rfl⟩ := List.mem_map.mp ha
        exact Bool.false_ne_true
    · by_contra hoperator
      exact hmoderated ⟨hmode, by rw [Bool.eq_false_iff.mpr hoperator]; rfl⟩

/-- **What a session does is logged when it is accepted.** The row has the callsign and the channel
from before the event. -/
theorem stored_drainEntry_of_find? {sessionId : Text} {s : LocalSession}
    (hs : h.sessions.find? sessionId = some s) (he : e.sessionId? = some sessionId)
    (hloggable : isLoggableLocal e = true) (hjoin : e.isJoin = false)
    (hcall : Callsigns.normalize s.callsign = s.callsign) :
    (drainEntry links allSucceed now h e).map stored = accepted h e := by
  have hempty : ¬([] : Text).length ≠ 0 := not_not.mpr rfl
  rw [drainEntry_of_find? hs he hloggable hjoin, logLocal.eq_def]
  cases e with
  | localSwitchChannel sessionId channel =>
    cases he
    -- the log asks what was announced, and that is decided by the gate
    have hannounces : h.announces (.localSwitchChannel sessionId channel) = h.allows channel s := by
      rw [Hub.announces, hs, Option.any_some]
    have harrival : announcedPresence
        (h.advance now (.localSwitchChannel sessionId channel)).actions = h.allows channel s := by
      rw [← hannounces]
      refine announcedPresence_iff rfl fun send hsend => ?_
      rw [Hub.announcement, hs] at hsend
      cases hsend
      rfl
    dsimp only
    rw [harrival, accepted, hs, Option.bind_some]
    rcases hall : h.allows channel s with _ | _
    · rw [if_neg Bool.false_ne_true, ite_self]
      rfl
    · rw [refused_of_announces rfl (hannounces.trans hall), if_neg Bool.false_ne_true,
        if_pos rfl, if_pos rfl, Option.map_some, stored, presence, hcall]
      rfl
  | localSay sessionId text =>
    cases he
    dsimp only
    rw [accepted, hs, Option.bind_some]
    rcases eq_or_ne text [] with rfl | htext
    · rw [if_neg hempty, ite_self, if_neg (fun hbad => hbad.1 rfl)]
      rfl
    · rw [if_pos (mt List.length_eq_zero_iff.mp htext)]
      -- on a moderated channel the hub refuses, and the log looks for the refusal
      by_cases hmay : .moderated ∈ h.modesOf s.channel → s.isOperator = true
      · rw [if_neg ((refused_localSay hs htext).not.mpr (not_not.mpr hmay)),
          if_pos ⟨htext, hmay⟩, Option.map_some, stored, hcall]
        rfl
      · rw [if_pos ((refused_localSay hs htext).mpr hmay), if_neg fun hbad => hmay hbad.2]
        rfl
  | localPrivateMessage sessionId toUser text =>
    cases he
    dsimp only
    rw [accepted, hs, Option.bind_some]
    rcases eq_or_ne text [] with rfl | htext
    · rw [if_neg hempty, ite_self, if_neg (not_not.mpr rfl)]
      rfl
    · have hlength := mt List.length_eq_zero_iff.mp htext
      have hann : h.announces (.localPrivateMessage sessionId toUser text) = true := by
        rw [Hub.announces, hs, Option.any_some]
        exact decide_eq_true hlength
      rw [refused_of_announces rfl hann, if_neg Bool.false_ne_true, if_pos hlength, if_pos htext,
        Option.map_some, stored, hcall]
      simp only [Option.bind_some, Callsigns.normalize_normalize, List.length_eq_zero_iff]
      rfl
  | localSetAway sessionId away | localLeave sessionId reason =>
    cases he
    rw [refused_of_announces rfl (by rw [Hub.announces, hs]; rfl), if_neg Bool.false_ne_true]
    dsimp only
    rw [accepted, hs, Option.map_some, Option.map_some, stored, presence, hcall]
    simp only [List.length_eq_zero_iff]
    rfl
  | localJoin => cases hjoin
  | _ => cases hloggable

/-- **What the hub accepts is logged, and nothing else is**, when the sends succeed. What is
expected is read off the state before, and what is stored off the answer. -/
theorem stored_drainEntry (hcanonical : h.Canonical) :
    (drainEntry links allSucceed now h e).map stored = accepted h e := by
  rcases hloggable : isLoggableLocal e with _ | _
  · have hnone : drainEntry links allSucceed now h e = none := by
      rw [drainEntry, resolveLocalIdentity, hloggable, Bool.not_false, if_pos rfl,
        Option.bind_none, ite_self]
    rw [hnone]
    cases e <;> first | rfl | cases hloggable
  · rcases hjoin : e.isJoin with _ | _
    · obtain ⟨sessionId, he⟩ : ∃ sessionId, e.sessionId? = some sessionId := by
        cases e <;> first | exact ⟨_, rfl⟩ | cases hloggable
      rcases hs : h.sessions.find? sessionId with _ | s
      · rw [drainEntry_of_find?_eq_none hs he hjoin]
        cases e <;> first
          | cases hloggable; done
          | cases hjoin; done
          | cases he; rw [accepted, hs]; rfl
      · exact stored_drainEntry_of_find? hs he hloggable hjoin
          (hcanonical s (Hub.attached_of_find? hs))
    · cases e with
      | localJoin sessionId callsign channel =>
        have harrival : announcedPresence
            (h.advance now (.localJoin sessionId callsign channel)).actions =
              h.admits channel (Callsigns.normalize callsign) :=
          announcedPresence_iff rfl (by rintro send ⟨⟩; rfl)
        have hidentity : resolveLocalIdentity isLoggableLocal h
            (.localJoin sessionId callsign channel) =
              some (Callsigns.normalize callsign, channel) := rfl
        rw [drainEntry_of_isLoggableLocal rfl, hidentity, Option.bind_some, accepted]
        dsimp only
        rw [logLocal.eq_def]
        dsimp only
        rw [harrival]
        rcases hadm : h.admits channel (Callsigns.normalize callsign) with _ | _
        · rw [if_neg Bool.false_ne_true, ite_self]
          rfl
        · rw [refused_of_announces (e := .localJoin sessionId callsign channel) rfl hadm,
            if_neg Bool.false_ne_true, if_pos rfl, if_pos rfl, Option.map_some, stored, presence,
            Callsigns.normalize_normalize]
          rfl
      | _ => cases hjoin

end Step

end ChatLogWriter

/-! ### Valid names -/

namespace Hub

variable {h : Hub} {now : DateTimeOffset} {e : ConversEvent}

/-- The sessions have valid names, in canonical form. -/
def WellNamed (h : Hub) : Prop :=
  ∀ s, h.Attached s → Callsigns.isValidName s.callsign = true ∧
    Callsigns.normalize s.callsign = s.callsign

/-- A session after a step was there before, or joins under its callsign. -/
theorem Attached.of_step {s : LocalSession} (hs : (step h (now, e)).Attached s) :
    (∃ t, h.Attached t ∧ t.callsign = s.callsign) ∨
      ∃ sessionId callsign channel, e = .localJoin sessionId callsign channel ∧
        s.callsign = Callsigns.normalize callsign := by
  have hsame : ∀ {h' : Hub}, (step h (now, e)).roster = h'.roster → h'.Attached s := by
    intro h' hroster
    rwa [Attached, sessions_of_roster hroster] at hs
  have hlisted : ∀ {h' : Hub} {users : Table NetworkUser.key},
      (step h (now, e)).roster = { h' with users := users }.roster → h'.Attached s := hsame
  -- a step that stores a session attaches that one and keeps the others
  have hstored : ∀ {t : LocalSession}, (step h (now, e)).roster = (h.storeSession t).roster →
      s = t ∨ h.Attached s := by
    intro t hroster
    have hafter := hsame hroster
    rw [Attached, find?_sessions_storeSession] at hafter
    split at hafter
    · exact Or.inl (Option.some.inj hafter).symm
    · exact Or.inr hafter
  cases rosterStep h now e with
  | quiet hroster => exact Or.inl ⟨s, hsame hroster, rfl⟩
  | joined hadm hroster =>
    rcases hstored hroster with rfl | hs
    · exact Or.inr ⟨_, _, _, rfl, rfl⟩
    · exact Or.inl ⟨s, hs, rfl⟩
  | switched ht hall hroster =>
    rcases hstored hroster with rfl | hs
    · exact Or.inl ⟨_, ht, rfl⟩
    · exact Or.inl ⟨s, hs, rfl⟩
  | retold t t' ht hretold hroster =>
    obtain ⟨personal, away, rfl⟩ := hretold
    rcases hstored hroster with rfl | hs
    · exact Or.inl ⟨t, ht, rfl⟩
    · exact Or.inl ⟨s, hs, rfl⟩
  | left ht hroster =>
    have hafter := hsame hroster
    rw [Attached, find?_sessions_dropSession] at hafter
    split at hafter
    · cases hafter
    · exact Or.inl ⟨s, hafter, rfl⟩
  | authenticated ht hroster =>
    obtain ⟨t, ht, rfl⟩ := Attached.of_grantOperator (hsame hroster)
    exact Or.inl ⟨t, ht, rfl⟩
  | invited ht hroster =>
    obtain ⟨t, ht, rfl⟩ := Attached.of_recordInvite (hsame hroster)
    exact Or.inl ⟨t, ht, rfl⟩
  | hostInvited hvalid hroster =>
    obtain ⟨t, ht, rfl⟩ := Attached.of_recordInvite (hsame hroster)
    exact Or.inl ⟨t, ht, rfl⟩
  | appeared entry hlists hkey hremote hchannel hflag hroster =>
    exact Or.inl ⟨s, hlisted hroster, rfl⟩
  | vanished k hremote hroster => exact Or.inl ⟨s, hlisted hroster, rfl⟩
  | described u u' hu hkey hchannel hflag hroster => exact Or.inl ⟨s, hlisted hroster, rfl⟩
  | granted hvalid hnone hroster =>
    obtain ⟨t, ht, rfl⟩ := Attached.of_grantOperator (hsame hroster)
    exact Or.inl ⟨t, ht, rfl⟩
  | flagged u hvalid hu hroster =>
    obtain ⟨t, ht, rfl⟩ := Attached.of_grantOperator (hlisted hroster)
    exact Or.inl ⟨t, ht, rfl⟩

/-- **One step keeps the names valid.** The log stores a callsign in canonical form, so it has to be
one for the row to be found. -/
theorem WellNamed.step (hn : h.WellNamed) (now : DateTimeOffset) (hnamed : e.isNamed = true) :
    (step h (now, e)).WellNamed := by
  intro s hs
  rcases hs.of_step with ⟨t, ht, hcall⟩ | ⟨sessionId, callsign, channel, rfl, hcall⟩
  · rw [← hcall]
    exact hn t ht
  · rw [hcall]
    exact ⟨Callsigns.isValidName_normalize hnamed, Callsigns.normalize_normalize callsign⟩

/-- The names of every run are valid, when those of the joins are. -/
theorem wellNamed_final {hostName : Text} {store : Option ConversStore} {start : Hub}
    (hnew : new hostName store = .ok start) (inputs : List Input)
    (hnamed : ∀ p ∈ inputs, p.2.isNamed = true) : (Run.final step start inputs).WellNamed := by
  have hstart : start.WellNamed := fun s hs => absurd hs (not_attached_of_new hnew s)
  exact (Run.invariant hstart inputs fun p hp hn =>
    hn.step p.2.1 (hnamed p.2 (Run.mem_of_mem_trace hp))).2

end Hub

/-! ### The rows of a run -/

/-- A turn of the loop on an event of a session, with the links there are and how the sends on
the uplink end. -/
structure Drained where
  links : HostLink.Links
  succeeds : ℕ → Bool
  now : DateTimeOffset
  event : ConversEvent

/-- The hub and the log. -/
structure LoggedHub where
  hub : Hub
  log : ChatLog

namespace LoggedHub

open HostLink ChatLogWriter

variable {l : LoggedHub} {d : Drained}

/-- The loop drains an event, and the writer sees its calls. -/
def drain (l : LoggedHub) (d : Drained) : LoggedHub :=
  let (hub, done) := drainLocalEvent d.links isLoggableLocal d.succeeds d.now l.hub d.event
  ⟨hub, record d.now l.log done.effects⟩

theorem hub_drain (l : LoggedHub) (d : Drained) :
    (l.drain d).hub = Hub.step l.hub (d.now, d.event) :=
  hub_drainLocalEvent d.links d.now l.hub isLoggableLocal d.succeeds d.event

/-- A row is of a valid name. -/
theorem isValidName_of_accepted {h : Hub} (hn : h.WellNamed) {e : ConversEvent}
    (hnamed : e.isNamed = true) {entry : ChatLogEntry} (hentry : accepted h e = some entry) :
    Callsigns.isValidName entry.fromCall = true := by
  have hsession : ∀ {sessionId : Text} {f : LocalSession → Option ChatLogEntry},
      (h.sessions.find? sessionId).bind f = some entry →
        (∀ s, ∀ entry ∈ f s, entry.fromCall = s.callsign) →
          Callsigns.isValidName entry.fromCall = true := by
    intro sessionId f hf hcall
    obtain ⟨s, hs, hf⟩ := Option.bind_eq_some_iff.mp hf
    rw [hcall s entry hf]
    exact (hn s (Hub.attached_of_find? hs)).1
  cases e with
  | localJoin sessionId callsign channel =>
    rw [accepted] at hentry
    split at hentry
    · cases hentry
      exact Callsigns.isValidName_normalize hnamed
    · cases hentry
  | localSwitchChannel | localSay | localPrivateMessage =>
    refine hsession hentry fun s f hf => ?_
    split at hf
    · cases hf
      rfl
    · cases hf
  | localSetAway | localLeave =>
    rw [accepted, Option.map_eq_bind] at hentry
    refine hsession hentry fun s f hf => ?_
    cases hf
    rfl
  | _ => cases hentry

/-- **One turn appends the row of an accepted event**, and none of any other. A failing send would
leave the rest of the turn undone, so the sends are to succeed. -/
theorem rows_drain (hn : l.hub.WellNamed) (hnamed : d.event.isNamed = true)
    (hsucceeds : ∀ n, d.succeeds n = true) :
    ∃ rows, (l.drain d).log.rows = l.log.rows ++ rows ∧
      rows.map ChatLogRow.toChatLogEntry = (accepted l.hub d.event).toList := by
  have hall : d.succeeds = allSucceed := funext hsucceeds
  have hlog : (l.drain d).log = ((drainEntry d.links allSucceed d.now l.hub d.event).toList).foldl
      (fun log entry => log.appendChatLog d.now entry) l.log := by
    rw [← entries_drainLocalEvent, ← hall]
    rfl
  have hstored : (drainEntry d.links allSucceed d.now l.hub d.event).map stored =
      accepted l.hub d.event := stored_drainEntry fun s hs => (hn s hs).2
  rw [hlog, ← hstored]
  rcases hentry : drainEntry d.links allSucceed d.now l.hub d.event with _ | entry
  · exact ⟨[], (List.append_nil _).symm, rfl⟩
  · rw [hentry, Option.map_some] at hstored
    have hvalid : Callsigns.isValidName (Callsigns.normalize entry.fromCall) = true :=
      isValidName_of_accepted hn hnamed hstored.symm
    have hblank : ¬isNullOrWhiteSpace entry.fromCall = true := by
      intro hblank
      rw [Callsigns.normalize, if_pos hblank] at hvalid
      cases hvalid
    refine ⟨[ChatLog.rowOf (l.log.lastId + 1) d.now entry], ?_, rfl⟩
    simp only [Option.toList_some, List.foldl_cons, List.foldl_nil, ChatLog.appendChatLog,
      if_neg hblank]

/-- **A run leaves the rows of what is accepted.** The rows are in the order of the events, as each
is appended. -/
theorem rows_of_run (hn : l.hub.WellNamed) (inputs : List Drained)
    (hinputs : ∀ d ∈ inputs, d.event.isNamed = true ∧ ∀ n, d.succeeds n = true) :
    ∃ rows, (Run.final drain l inputs).log.rows = l.log.rows ++ rows ∧
      rows.map ChatLogRow.toChatLogEntry =
        (Run.trace drain l inputs).filterMap fun p => accepted p.1.hub p.2.event := by
  induction inputs generalizing l with
  | nil => exact ⟨[], (List.append_nil _).symm, rfl⟩
  | cons d inputs ih =>
    obtain ⟨hnamed, hsucceeds⟩ := hinputs d List.mem_cons_self
    have hnext : (l.drain d).hub.WellNamed := by
      rw [hub_drain]
      exact hn.step d.now hnamed
    obtain ⟨rows, hrows, hentries⟩ := rows_drain hn hnamed hsucceeds
    obtain ⟨rows', hrows', hentries'⟩ := ih hnext fun d hd =>
      hinputs d (List.mem_cons_of_mem _ hd)
    refine ⟨rows ++ rows', ?_, ?_⟩
    · rw [Run.final_cons, hrows', hrows, List.append_assoc]
    · rw [List.map_append, hentries, hentries', Run.trace_cons, List.filterMap_cons]
      rcases accepted l.hub d.event with _ | entry
      · rfl
      · rfl

/-- **The log is exact**: from any state that a run reaches, a run of drained events whose sends
succeed leaves one row for each event that the hub accepts, in order, and no others. -/
theorem log_exact {hostName : Text} {store : Option ConversStore} {start : Hub}
    (hnew : Hub.new hostName store = .ok start) (before : List Hub.Input)
    (hbefore : ∀ p ∈ before, p.2.isNamed = true) (log : ChatLog) (inputs : List Drained)
    (hinputs : ∀ d ∈ inputs, d.event.isNamed = true ∧ ∀ n, d.succeeds n = true) :
    ∃ rows,
      (Run.final drain ⟨Run.final Hub.step start before, log⟩ inputs).log.rows =
        log.rows ++ rows ∧
      rows.map ChatLogRow.toChatLogEntry =
        (Run.trace drain ⟨Run.final Hub.step start before, log⟩ inputs).filterMap
          fun p => accepted p.1.hub p.2.event :=
  rows_of_run (l := ⟨_, log⟩) (Hub.wellNamed_final hnew before hbefore) inputs hinputs

/-- A user says something, goes to another channel and leaves, and says something more. -/
def exampleTalk : List Drained :=
  [.localJoin "web-1".toList "m0abc".toList 7, .localSay "web-1".toList "hello".toList,
    .localSay "web-1".toList [], .localSwitchChannel "web-1".toList 7,
    .localSwitchChannel "web-1".toList 9, .localLeave "web-1".toList " bye ".toList,
    .localSay "web-1".toList "still there?".toList].map fun e =>
      ⟨⟨true, ["peer".toList], by decide⟩, fun _ => true, ⟨0, zero_ticks_le⟩, e⟩

/-- Four rows. The empty text, the switch to his own channel and what he says after he has left are
in none of them. -/
theorem log_exact_exampleTalk :
    ∃ rows,
      (Run.final drain ⟨Run.final Hub.step (Hub.fresh "NODE".toList) [], .empty⟩
        exampleTalk).log.rows = ChatLog.empty.rows ++ rows ∧
      rows.map ChatLogRow.toChatLogEntry =
        [localRow .presence (some 7) "M0ABC".toList "joined".toList,
          localRow .channel (some 7) "M0ABC".toList "hello".toList,
          localRow .presence (some 9) "M0ABC".toList "joined".toList,
          localRow .presence (some 9) "M0ABC".toList "left: bye".toList] := by
  have hnamed : (exampleTalk.all fun d => d.event.isNamed) = true := by decide
  have hinputs : ∀ d ∈ exampleTalk, d.event.isNamed = true ∧ ∀ n, d.succeeds n = true := by
    intro d hd
    refine ⟨List.all_eq_true.mp hnamed d hd, fun n => ?_⟩
    obtain ⟨e, -, rfl⟩ := List.mem_map.mp hd
    rfl
  obtain ⟨rows, hrows, hentries⟩ := log_exact (@Hub.new_none "NODE".toList (by decide)) [] nofun
    .empty exampleTalk hinputs
  refine ⟨rows, hrows, hentries.trans ?_⟩
  decide +kernel

end LoggedHub

end Convers
