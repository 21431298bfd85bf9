import Convers.Core.Sightings
import Convers.Host.Node

/-!
# What another host makes of our commands

A host that hears our commands puts each through the bridge and advances its hub
(`Convers.Hub.heed`); `Convers.Hub.view` is the hub of a host that knew nobody. What it
shows of a user does not depend on the rest of the hub: it is what the commands tell of
him, one after another (`Convers.Hub.shows_view`), but of its own users it hears nothing.

An announcement from a snapshot tells of each user listed what the snapshot shows
(`Convers.HostCommand.toldBy_presence`).
-/

namespace Convers

namespace HostBridge

/-- What a moment is on the wire is a moment again. -/
theorem fromUnix_toUnix (time : DateTimeOffset) : ∃ t, fromUnix (toUnix time) = .ok t := by
  obtain ⟨h1, h2⟩ := DateTimeOffset.inRange_toUnixTimeSeconds time
  refine (fromUnix_isOk_iff _).mpr ?_
  rw [toUnix]
  split
  · exact ⟨by decide, by decide⟩
  · rename_i hpos
    rw [Int64.toInt_ofInt_of_le (by omega) (by omega)]
    exact ⟨h1, h2⟩

end HostBridge

namespace HostCommand

/-- What a command says of a user, to the host that hears it. -/
def tells (k : Text × Text) (known : Option (Int32 × Text)) (command : HostCommand) :
    Option (Int32 × Text) :=
  match HostBridge.toEvent command with
  | .ok (some event) => event.tells k known
  | _ => known

/-- What some commands say of a user, one after another. -/
def toldBy (k : Text × Text) (commands : List HostCommand) (known : Option (Int32 × Text)) :
    Option (Int32 × Text) :=
  commands.foldl (tells k) known

@[simp] theorem toldBy_nil (k : Text × Text) (known : Option (Int32 × Text)) :
    toldBy k [] known = known := rfl

@[simp] theorem toldBy_cons (k : Text × Text) (c : HostCommand) (commands : List HostCommand)
    (known : Option (Int32 × Text)) :
    toldBy k (c :: commands) known = toldBy k commands (c.tells k known) := rfl

theorem toldBy_append (k : Text × Text) (commands commands' : List HostCommand)
    (known : Option (Int32 × Text)) :
    toldBy k (commands ++ commands') known = toldBy k commands' (toldBy k commands known) :=
  List.foldl_append

/-- Commands that tell nothing of anybody. -/
theorem toldBy_eq_self {k : Text × Text} {commands : List HostCommand}
    (h : ∀ c ∈ commands, ∀ known, c.tells k known = known) (known : Option (Int32 × Text)) :
    toldBy k commands known = known := by
  induction commands with
  | nil => rfl
  | cons c commands ih =>
    rw [toldBy_cons, h c (by simp)]
    exact ih fun d hd => h d (List.mem_cons_of_mem _ hd)

/-- **A command tells what the action did** that it was made of. What a hub says and what another
one hears are compared by it. -/
theorem tells_toHostCommand {a : ConversAction} {c : HostCommand}
    (h : HostBridge.toHostCommand a = some c) (k : Text × Text) (known : Option (Int32 × Text)) :
    c.tells k known = a.tells k known := by
  cases a with
  | sendUser user host timestamp fromChannel toChannel personal =>
    cases h
    obtain ⟨t, ht⟩ := HostBridge.fromUnix_toUnix timestamp
    simp only [tells, HostBridge.toEvent, ht]
    rfl
  | sendAway user host timestamp text =>
    cases h
    obtain ⟨t, ht⟩ := HostBridge.fromUnix_toUnix timestamp
    simp only [tells, HostBridge.toEvent, ht]
    rfl
  | sendTopic user host timestamp channel text =>
    cases h
    obtain ⟨t, ht⟩ := HostBridge.fromUnix_toUnix timestamp
    simp only [tells, HostBridge.toEvent, ht]
    rfl
  | sendChannelMessage | sendPrivateMessage | sendPersonal | sendInvite | sendMode | sendPong =>
    cases h
    rfl
  | _ => cases h

end HostCommand

namespace Hub

open HostCommand (toldBy)

/-- A hub hears a command from another host. The moment is of no account: what a host says
of a user has its own. -/
def heed (now : DateTimeOffset) (h : Hub) (command : HostCommand) : Hub :=
  match HostBridge.toEvent command with
  | .ok (some event) => step h (now, event)
  | _ => h

/-- What a host that knew nobody makes of some commands. -/
def view (now : DateTimeOffset) (viewer : Text) (commands : List HostCommand) : Hub :=
  commands.foldl (heed now) (fresh viewer)

/-- A hub that has no users of its own. -/
structure Viewing (h : Hub) (name : Text) : Prop where
  host : h.hostName = name
  sessions : ∀ s, ¬h.Attached s
  users : ∀ k, k.2 = name → h.shows k = none

/-- Nothing of a hub without sessions is stored anew. -/
theorem Viewing.tracks {h : Hub} {name : Text} (hv : h.Viewing name) (e : ConversEvent)
    (k : Text × Text) : h.Tracks e k :=
  fun s hs => absurd (attached_of_mem_restores hs) (hv.sessions s)

/-- **A hub that has no users of its own gets none** from other hosts. It can so be filled from the
wire alone, as a fresh hub is. -/
theorem Viewing.step {h : Hub} {name : Text} (hv : h.Viewing name) (now : DateTimeOffset)
    {e : ConversEvent} (he : e.isLocal = false) : (Hub.step h (now, e)).Viewing name := by
  have hcanon : h.Canonical := fun s hs => absurd hs (hv.sessions s)
  refine ⟨(hostName_step h now e).trans hv.host, fun s hs => ?_, fun k hk => ?_⟩
  · have hsame : ∀ {h' : Hub}, (Hub.step h (now, e)).roster = h'.roster → h'.sessions = h.sessions →
        False := by
      intro h' hroster hsessions
      rw [Attached, sessions_of_roster hroster, hsessions] at hs
      exact hv.sessions s hs
    have hgranted : ∀ {call : Text} {channel : Int32} {grant : Bool},
        ¬(h.grantOperator call channel grant).Attached s := by
      intro call channel grant hbad
      obtain ⟨t, ht, -⟩ := attached_grantOperator.mp hbad
      exact hv.sessions t ht
    cases rosterStep h now e with
    | quiet hroster => exact hsame hroster rfl
    | joined | switched | left | authenticated | invited => cases he
    | retold t t' ht hretold hroster => exact hv.sessions t ht
    | hostInvited hvalid hroster =>
      rw [Attached, sessions_of_roster hroster, find?_sessions_recordInvite] at hs
      obtain ⟨t, ht, -⟩ := Option.map_eq_some_iff.mp hs
      exact hv.sessions t (attached_of_find? ht)
    | appeared entry hlists hkey hremote hchannel hflag hroster => exact hsame hroster rfl
    | vanished k hremote hroster => exact hsame hroster rfl
    | described u u' hu hkey hchannel hflag hroster => exact hsame hroster rfl
    | granted hvalid hnone hroster =>
      rw [Attached, sessions_of_roster hroster] at hs
      exact hgranted hs
    | flagged u hvalid hu hroster =>
      rw [Attached, sessions_of_roster hroster] at hs
      exact hgranted hs
  · have hchannel := channel_step_of_own hcanon now he (hv.tracks e k) (hk.trans hv.host.symm)
    rw [hv.users k hk] at hchannel
    exact Option.map_eq_none_iff.mp hchannel

/-- **What a host makes of a command**: of its own users it hears nothing. A hub with another name
is therefore a faithful mirror of ours. -/
theorem Viewing.heed {h : Hub} {name : Text} (hv : h.Viewing name)
    (hname : Callsigns.normalize name = name) (now : DateTimeOffset) (c : HostCommand) :
    (heed now h c).Viewing name ∧
      ∀ k, k.2 ≠ name → (Hub.heed now h c).shows k = c.tells k (h.shows k) := by
  rcases hevent : HostBridge.toEvent c with fault | _ | e
  · simp only [Hub.heed, HostCommand.tells, hevent]
    exact ⟨hv, fun _ _ => trivial⟩
  · simp only [Hub.heed, HostCommand.tells, hevent]
    exact ⟨hv, fun _ _ => trivial⟩
  · simp only [Hub.heed, HostCommand.tells, hevent]
    refine ⟨hv.step now (HostBridge.isLocal_of_toEvent hevent).1, fun k hk => ?_⟩
    obtain ⟨rfl, hsessions, -⟩ := hv
    exact shows_of_remote (fun s hs => absurd hs (hsessions s)) hname hk now e

/-- **A view is what the commands tell**, user by user, but for the users of the viewer. What a host
has heard is so computed from the commands, without the hub that hears them. -/
theorem shows_view (now : DateTimeOffset) (viewer : Text) (commands : List HostCommand)
    (k : Text × Text) :
    (view now viewer commands).shows k =
      if k.2 = Callsigns.normalize viewer then none else toldBy k commands none := by
  have hfold : ∀ h : Hub, h.Viewing (Callsigns.normalize viewer) →
      (commands.foldl (Hub.heed now) h).Viewing (Callsigns.normalize viewer) ∧
        (k.2 ≠ Callsigns.normalize viewer →
          (commands.foldl (Hub.heed now) h).shows k = toldBy k commands (h.shows k)) := by
    induction commands with
    | nil => exact fun h hv => ⟨hv, fun _ => rfl⟩
    | cons c commands ih =>
      intro h hv
      obtain ⟨hv', hshows⟩ := hv.heed (Callsigns.normalize_normalize viewer) now c
      obtain ⟨hlast, htold⟩ := ih _ hv'
      refine ⟨hlast, fun hk => ?_⟩
      rw [List.foldl_cons, htold hk, hshows k hk, HostCommand.toldBy_cons]
  obtain ⟨hview, htold⟩ := hfold (fresh viewer) ⟨rfl, nofun, fun _ _ => rfl⟩
  split
  · rename_i hk
    exact hview.users k hk
  · rename_i hk
    exact htold hk

end Hub

/-! ### What an announcement tells -/

namespace HostLink

open HostCommand (toldBy toldBy_cons toldBy_append)

/-- What the announcement of a user shows of him to a host that had seen him or not. -/
def introduced (u : NetworkUser) (known : Option (Int32 × Text)) : Int32 × Text :=
  (u.channel, if u.away.length ≠ 0 then trim u.away else (known.map Prod.snd).getD [])

/-- **The announcement of a user** tells of him. It is three commands at most, and all of them are
of this user. -/
theorem toldBy_announceUser {u : NetworkUser} (hu : u.Sound) (k : Text × Text)
    (known : Option (Int32 × Text)) :
    toldBy k (announceUser u) known = if k = u.key then some (introduced u known) else known := by
  have hjoin : ∀ known, (HostCommand.hostUser u.name u.host (HostBridge.toUnix u.joinedAt) (-1)
      u.channel u.personal false).tells k known =
        if k = u.key then some (u.channel, (known.map Prod.snd).getD []) else known := fun known =>
    (HostCommand.tells_toHostCommand (a := .sendUser u.name u.host u.joinedAt (-1) u.channel
      u.personal) rfl k known).trans
        (ConversAction.tells_sendUser hu.name hu.host _ _ hu.channel _ k known)
  have haway : ∀ known, (HostCommand.hostAway u.name u.host (HostBridge.toUnix u.joinedAt)
      u.away).tells k known =
        if k = u.key then known.map fun known => (known.1, trim u.away) else known :=
    fun known => (HostCommand.tells_toHostCommand (a := .sendAway u.name u.host u.joinedAt u.away)
      rfl k known).trans (ConversAction.tells_sendAway hu.name hu.host _ _ k known)
  have hpersonal : ∀ known, toldBy k (if u.personal.length ≠ 0 then
      [HostCommand.hostUserData u.name u.host u.personal] else []) known = known := by
    intro known
    split
    · rfl
    · rfl
  simp only [announceUser, toldBy_cons, toldBy_append]
  rw [hjoin, hpersonal]
  by_cases hk : k = u.key
  · rw [if_pos hk, if_pos hk, introduced]
    by_cases hlength : u.away.length ≠ 0
    · rw [if_pos hlength, if_pos hlength, toldBy_cons, haway, if_pos hk]
      rfl
    · rw [if_neg hlength, if_neg hlength]
      rfl
  · rw [if_neg hk, if_neg hk]
    split
    · rw [toldBy_cons, haway, if_neg hk]
      rfl
    · rfl

/-- **The announcement of several users** tells of each of them. As no user is listed twice, none of
them undoes another. -/
theorem toldBy_flatMap_announceUser {users : List NetworkUser} (hsound : ∀ u ∈ users, u.Sound)
    (hnodup : (users.map NetworkUser.key).Nodup) (k : Text × Text) (known : Option (Int32 × Text)) :
    toldBy k (users.flatMap announceUser) known =
      ((users.find? (NetworkUser.key · = k)).map fun u => introduced u known).or known := by
  induction users generalizing known with
  | nil => rfl
  | cons u users ih =>
    rw [List.map_cons, List.nodup_cons] at hnodup
    have hrest := ih (fun v hv => hsound v (List.mem_cons_of_mem _ hv)) hnodup.2
    rw [List.flatMap_cons, toldBy_append, toldBy_announceUser (hsound u (by simp)), hrest]
    by_cases hk : k = u.key
    · -- nobody else has the key
      have hnone : users.find? (NetworkUser.key · = k) = none := by
        refine List.find?_eq_none.mpr fun v hv heq => hnodup.1 ?_
        rw [← hk, ← of_decide_eq_true heq]
        exact List.mem_map_of_mem hv
      have hfirst : (u :: users).find? (NetworkUser.key · = k) = some u :=
        List.find?_cons_of_pos (decide_eq_true hk.symm)
      rw [if_pos hk, hnone, hfirst]
      rfl
    · have hnext : (u :: users).find? (NetworkUser.key · = k) =
          users.find? (NetworkUser.key · = k) :=
        List.find?_cons_of_neg (by simpa using Ne.symm hk)
      rw [if_neg hk, hnext]

/-- The list of the users is the table in order. -/
theorem perm_networkUsers (h : Hub) : h.networkUsers.Perm h.users.records :=
  List.mergeSort_perm h.users.records Hub.userLE

/-- A user is found in the list as in the table. -/
theorem find?_networkUsers (h : Hub) (p : NetworkUser → Bool) (k : Text × Text) :
    (h.networkUsers.filter p).find? (NetworkUser.key · = k) = (h.users.find? k).filter p := by
  have hperm := perm_networkUsers h
  have hnodup : ((h.networkUsers.filter p).map NetworkUser.key).Nodup :=
    ((hperm.map NetworkUser.key).nodup_iff.mpr h.users.nodup).sublist (List.filter_sublist.map _)
  ext u
  rw [Option.filter_eq_some_iff]
  constructor
  · intro hfind
    obtain ⟨hmem, hp⟩ := List.mem_filter.mp (List.mem_of_find?_eq_some hfind)
    obtain rfl := of_decide_eq_true (List.find?_some hfind :)
    exact ⟨Table.mem_records.mp (hperm.mem_iff.mp hmem), hp⟩
  · rintro ⟨hu, hp⟩
    obtain rfl := Table.key_of_find? hu
    exact Table.find?_of_mem hnodup
      (List.mem_filter.mpr ⟨hperm.mem_iff.mpr (Table.mem_records.mpr hu), hp⟩)

/-- **The announcement of our own users** tells of those the table lists. So a parent that greets
has our users in one go. -/
theorem toldBy_onEstablished {h : Hub} (hsound : h.Sound) (k : Text × Text)
    (known : Option (Int32 × Text)) :
    toldBy k (onEstablished h) known =
      (((h.users.find? k).filter fun u =>
        HostLinkEngine.equalsIgnoreCase u.host h.hostName).map fun u => introduced u known).or
          known := by
  rw [← find?_networkUsers]
  refine toldBy_flatMap_announceUser (fun u hu => ?_) ?_ k known
  · have hmem := (perm_networkUsers h).mem_iff.mp (List.mem_filter.mp hu).1
    exact hsound.users _ u (Table.mem_records.mp hmem)
  · exact (((perm_networkUsers h).map NetworkUser.key).nodup_iff.mpr h.users.nodup).sublist
      (List.filter_sublist.map _)

end HostLink

/-! ### What a drained event tells -/

namespace HostLink

open HostCommand (toldBy)

variable (links : Links) (now : DateTimeOffset) (h : Hub) {e : ConversEvent}

/-- The commands of an answer are what is said. -/
theorem contentOf_actions (he : e.isLocal = true) :
    contentOf (h.advance now e).actions =
      ((Hub.said now h e).bind HostBridge.toHostCommand).toList := by
  rcases hann : h.announces e with _ | _
  · rw [contentOf_eq_nil (Hub.advance_of_not_announces now he hann), Hub.said, hann,
      if_neg Bool.false_ne_true]
    rfl
  · obtain ⟨before, send, after, command, hsent, hcommand, hsend, hactions, hbefore, hafter, -⟩ :=
      advance_of_announces now hann
    rw [hactions, contentOf_announced hsend hbefore hafter hcommand, Hub.said, hann, if_pos rfl,
      hsent, Option.bind_some, hcommand]
    rfl

/-- What is said tells what the action does. -/
theorem toldBy_said (e : ConversEvent) (k : Text × Text) (known : Option (Int32 × Text)) :
    toldBy k ((Hub.said now h e).bind HostBridge.toHostCommand).toList known =
      ((Hub.said now h e).map fun a => a.tells k known).getD known := by
  rcases Hub.said now h e with _ | a
  · rfl
  · rw [Option.bind_some, Option.map_some, Option.getD_some]
    rcases hcommand : HostBridge.toHostCommand a with _ | c
    · cases a <;> first | rfl | cases hcommand
    · exact HostCommand.tells_toHostCommand hcommand k known

/-- **What a drained event puts to the uplink** is what is said. What is delivered to the sessions
does not show there. -/
theorem attempted_drainLocalEvent (he : e.isLocal = true) :
    attempted (drainLocalEvent links isLoggableLocal allSucceed now h e).2.effects =
      if links.uplink then ((Hub.said now h e).bind HostBridge.toHostCommand).toList else [] := by
  have hcomplete := complete_of_succeeds (h := h) links isLoggableLocal allSucceed now he
    fun _ => rfl
  have hperm := hcomplete.attempted
  rw [contentOf_actions now h he] at hperm
  generalize (Hub.said now h e).bind HostBridge.toHostCommand = command at hperm ⊢
  split
  · rename_i hup
    rw [if_pos hup] at hperm
    rcases command with _ | command
    · exact hperm.eq_nil
    · exact List.perm_singleton.mp hperm
  · rename_i hup
    rw [if_neg hup] at hperm
    exact hperm.eq_nil

/-- **What a drained event puts to a peer** is what is said. Each peer so hears the same as the
parent does. -/
theorem enqueuedTo_drainLocalEvent (he : e.isLocal = true) {peer : Text}
    (hpeer : peer ∈ links.peers) :
    enqueuedTo peer (drainLocalEvent links isLoggableLocal allSucceed now h e).2.effects =
      ((Hub.said now h e).bind HostBridge.toHostCommand).toList := by
  have hcomplete := complete_of_succeeds (h := h) links isLoggableLocal allSucceed now he
    fun _ => rfl
  have hperm := hcomplete.enqueued peer hpeer
  rw [contentOf_actions now h he] at hperm
  generalize (Hub.said now h e).bind HostBridge.toHostCommand = command at hperm ⊢
  rcases command with _ | command
  · exact hperm.eq_nil
  · exact List.perm_singleton.mp hperm

/-- A drained event advances the hub. -/
theorem hub_drainLocalEvent (isLoggable : ConversEvent → Bool) (succeeds : ℕ → Bool)
    (e : ConversEvent) :
    (drainLocalEvent links isLoggable succeeds now h e).1 = Hub.step h (now, e) := by
  rw [drainLocalEvent]
  dsimp only
  split <;> rfl

end HostLink

namespace Node

open HostCommand (toldBy toldBy_append toldBy_eq_self)

/-- A topic is no presence, whatever its time. -/
theorem tells_hostTopic {user host : Text} {time : Int64} {channel : Int32} {text : Text}
    {e : ConversEvent}
    (he : HostBridge.toEvent (.hostTopic user host time channel text) = .ok (some e))
    (k : Text × Text) (known : Option (Int32 × Text)) : e.tells k known = known := by
  rw [HostBridge.toEvent] at he
  rcases ht : HostBridge.fromUnix time with fault | t
  · rw [ht] at he
    cases he
  · rw [ht] at he
    cases he
    rfl

/-- **The announcement to a peer** tells of every user the table lists. It is what a new peer starts
from. -/
theorem toldBy_presence {h : Hub} (hsound : h.Sound) (k : Text × Text)
    (known : Option (Int32 × Text)) :
    toldBy k (presence h) known =
      ((h.users.find? k).map fun u => HostLink.introduced u known).or known := by
  have husers : toldBy k (h.networkUsers.flatMap HostLink.announceUser) known =
      ((h.users.find? k).map fun u => HostLink.introduced u known).or known := by
    have hfind := HostLink.find?_networkUsers h (fun _ => true) k
    have hall : (h.users.find? k).filter (fun _ => true) = h.users.find? k := by
      rcases h.users.find? k with _ | u <;> rfl
    rw [List.filter_true, hall] at hfind
    rw [← hfind]
    refine HostLink.toldBy_flatMap_announceUser (fun u hu => ?_) ?_ k known
    · have hmem := (HostLink.perm_networkUsers h).mem_iff.mp hu
      exact hsound.users _ u (Table.mem_records.mp hmem)
    · exact ((HostLink.perm_networkUsers h).map NetworkUser.key).nodup_iff.mpr h.users.nodup
  rw [presence, toldBy_append, husers]
  refine toldBy_eq_self (fun c hc known => ?_) _
  obtain ⟨channel, -, hc⟩ := List.mem_flatMap.mp hc
  -- a topic or the modes of a channel
  rcases List.mem_append.mp hc with hc | hc
  · split at hc
    · rw [List.mem_singleton.mp hc, HostCommand.tells]
      split
      · rename_i e he
        exact tells_hostTopic he k known
      · rfl
    · cases hc
  · split at hc
    · rw [List.mem_singleton.mp hc]
      rfl
    · cases hc

end Node

end Convers
