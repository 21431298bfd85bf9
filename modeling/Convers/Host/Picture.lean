import Convers.Core.Entries
import Convers.Host.Mirror

/-!
# What a new peer is told

A peer that has just been accepted is announced the whole of the hub: every user with his
personal and away text, and the topic and the modes of every channel. It makes a hub of it,
and `Convers.Hub.Pictures` is that this one shows what ours does. The announcement of a user
has no place for his being an observer, a lone `@` stands for no personal text, and the peer
takes nobody of an invalid name, and nobody for a user of its own; so the picture is right
exactly when the table has no such user (`Convers.Hub.pictures_iff`).
-/

namespace Convers

/-- **A moment from 1970 on** comes back from the wire cut to whole seconds. An earlier one would
come back later, as the fraction is cut towards zero. -/
theorem HostBridge.fromUnix_toUnix_of_nonneg {t : DateTimeOffset} (ht : 0 ≤ t.toUnixTimeSeconds) :
    fromUnix (toUnix t) = .ok t.wholeSeconds := by
  obtain ⟨hlow, hhigh⟩ := DateTimeOffset.inRange_toUnixTimeSeconds t
  have hseconds : (toUnix t).toInt = t.toUnixTimeSeconds := by
    rw [toUnix, if_neg ht.not_gt, Int64.toInt_ofInt_of_le (by omega) (by omega)]
  have hticks : (t.toUnixTimeSeconds + (DateTimeOffset.unixEpochSeconds : ℤ)).toNat =
      t.ticks / 10000000 := by
    rw [DateTimeOffset.toUnixTimeSeconds, sub_add_cancel, Int.toNat_natCast]
  rw [fromUnix, hseconds, DateTimeOffset.fromUnixTimeSeconds, dif_pos ⟨hlow, hhigh⟩]
  simp only [hticks]
  rfl

namespace Hub

/-- What is seen of a user: the channel, the personal text, the away text, and whether he is an
observer. -/
def seen (u : NetworkUser) : Int32 × Text × Text × Bool :=
  (u.channel, u.personal, u.away, u.isObserver)

/-- What a hub shows under a key. -/
def sees (h : Hub) (k : Text × Text) : Option (Int32 × Text × Text × Bool) :=
  (h.users.find? k).map seen

/-- The topic a channel shows, with its time to the second. -/
def shownTopic (state : ChannelState) : Option (Text × Option DateTimeOffset) :=
  if state.topic.length ≠ 0 then
    some (state.topic, state.topicSetAt.map DateTimeOffset.wholeSeconds)
  else none

/-- **A hub shows what another one does.** -/
structure Pictures (h v : Hub) : Prop where
  /-- It has the same users, -/
  users : ∀ k, v.sees k = h.sees k
  /-- the same topics, -/
  topics : ∀ c, shownTopic (v.channelState c) = shownTopic (h.channelState c)
  /-- and the same modes. -/
  modes : ∀ c, v.modesOf c = h.modesOf c

/-- **A user who can be announced** to a host. -/
structure Announceable (viewer : Text) (u : NetworkUser) : Prop where
  /-- The name and the host are valid. -/
  name : Callsigns.isValidName u.name = true
  host : Callsigns.isValidName u.host = true
  /-- He is not a user of the host that is told. -/
  foreign : u.host ≠ viewer
  /-- He is no observer. -/
  speaks : u.isObserver = false
  /-- The personal text is no marker of an empty one. -/
  personal : resolvePersonal u.personal = u.personal

instance (viewer : Text) (u : NetworkUser) : Decidable (Announceable viewer u) :=
  decidable_of_iff (Callsigns.isValidName u.name = true ∧ Callsigns.isValidName u.host = true ∧
      u.host ≠ viewer ∧ u.isObserver = false ∧ resolvePersonal u.personal = u.personal)
    ⟨fun ⟨hname, hhost, hforeign, hspeaks, hpersonal⟩ =>
      ⟨hname, hhost, hforeign, hspeaks, hpersonal⟩,
      fun ⟨hname, hhost, hforeign, hspeaks, hpersonal⟩ =>
      ⟨hname, hhost, hforeign, hspeaks, hpersonal⟩⟩

/-- A topic that can be announced. -/
def Legible (c : Int32) (state : ChannelState) : Prop :=
  state.topic ≠ [] → ChannelNumber.isValid c = true ∧ trim state.topic = state.topic

instance (c : Int32) (state : ChannelState) : Decidable (Legible c state) :=
  inferInstanceAs (Decidable (_ → _))

/-! ### What a peer makes of a user -/

section Users

variable {v : Hub} {own : Text} {u : NetworkUser} (now : DateTimeOffset)

/-- What a host makes of the announcement of a user. -/
def told (viewer : Text) (u : NetworkUser) : Option (Int32 × Text × Text × Bool) :=
  if Callsigns.isValidName u.name = true ∧ Callsigns.isValidName u.host = true ∧
      u.host ≠ viewer then
    some (u.channel, resolvePersonal u.personal, u.away, false)
  else none

theorem sees_of_users {v' : Hub} (husers : v'.users = v.users) (k : Text × Text) :
    v'.sees k = v.sees k := by
  rw [sees, husers, sees]

theorem sees_put (w : NetworkUser) (k : Text × Text) :
    { v with users := v.users.put w }.sees k = if k = w.key then some (seen w) else v.sees k := by
  rw [sees, Table.find?_put, sees]
  split
  · rfl
  · rfl

theorem lists_iff (hu : Entry own u) (hv : Callsigns.normalize v.hostName = v.hostName) :
    v.lists u.name u.host u.channel = true ↔ Callsigns.isValidName u.name = true ∧
      Callsigns.isValidName u.host = true ∧ u.host ≠ v.hostName := by
  simp [lists, hu.name, hu.host, hu.channel, Callsigns.equal, hv, and_assoc]

/-- **The join**: a user who was not there is listed, or is not. It is the first command about a
user, and without it the others are ignored. -/
theorem sees_hostUser (hu : Entry own u) (hv : Callsigns.normalize v.hostName = v.hostName)
    (hnone : v.sees u.key = none) (t : DateTimeOffset) (k : Text × Text) :
    (step v (now, .hostUser u.name u.host t (-1) u.channel u.personal false)).sees k =
      if k = u.key then (told v.hostName u).map fun (c, p, _, o) => (c, p, [], o)
      else v.sees k := by
  have hkey : (Callsigns.normalize u.name, Callsigns.normalize u.host) = u.key := by
    rw [hu.name, hu.host]
    rfl
  rw [step, advance, told]
  rcases hlists : v.lists u.name u.host u.channel with _ | _
  · have hnot := mt (lists_iff hu hv).mpr (by simp [hlists])
    have hsigns : v.signsOff u.name u.host u.channel = false := by
      have hne : u.channel ≠ -1 := by
        intro heq
        have := hu.channel
        rw [heq] at this
        cases this
      simp [signsOff, hne]
    rw [hostUser_of_neither _ _ _ _ hlists hsigns, if_neg hnot]
    split
    · rename_i hk
      rw [hk]
      exact hnone
    · rfl
  · have hentry : seen (v.hostEntry u.name u.host t u.channel u.personal false) =
        (u.channel, resolvePersonal u.personal, [], false) := by
      have hfind : v.users.find? u.key = none := Option.map_eq_none_iff.mp hnone
      simp only [hostEntry, seen, hkey, hfind, Option.map_none, Option.getD_none]
      split
      · rename_i hlength
        rw [List.length_eq_zero_iff.mp hlength]
      · rfl
    rw [hostUser_of_lists _ _ _ _ hlists, if_pos ((lists_iff hu hv).mp hlists), sees_put, hentry]
    have hname : (v.hostEntry u.name u.host t u.channel u.personal false).key = u.key := hkey
    rw [hname]
    rfl

/-- **An entry that is amended** if it is there. The two commands that follow a join are of this
form. -/
theorem sees_amend (key : Text × Text) (f : NetworkUser → NetworkUser)
    (hf : ∀ w, (f w).key = w.key) (k : Text × Text) :
    (match v.users.find? key with
      | none => v.ignore
      | some existing => ⟨{ v with users := v.users.put (f existing) }, [], none⟩).hub.sees k =
      if k = key then (v.users.find? key).map fun w => seen (f w) else v.sees k := by
  rcases hfind : v.users.find? key with _ | w
  · dsimp only
    split
    · rename_i hk
      rw [hk, sees, ignore, hfind]
      rfl
    · rfl
  · dsimp only
    rw [sees_put, hf, Table.key_of_find? hfind]
    rfl

/-- **The personal text** of a user who is listed. It is resolved on arrival, as the marker stands
for none. -/
theorem sees_hostPersonal (hu : Entry own u) (text : Text) (k : Text × Text) :
    (step v (now, .hostPersonal u.name u.host text)).sees k =
      if k = u.key then (v.sees u.key).map fun (c, _, a, o) => (c, resolvePersonal text, a, o)
      else v.sees k := by
  simp only [step, advance, hostPersonal, hu.name, hu.host]
  refine (sees_amend (u.name, u.host) (fun w => { w with personal := resolvePersonal text })
    (fun _ => rfl) k).trans ?_
  simp only [sees, Option.map_map]
  rfl

/-- **The away text** of a user who is listed. The moment of it is not kept. -/
theorem sees_hostAway (hu : Entry own u) (t : DateTimeOffset) (text : Text) (k : Text × Text) :
    (step v (now, .hostAway u.name u.host t text)).sees k =
      if k = u.key then (v.sees u.key).map fun (c, p, _, o) => (c, p, trim text, o)
      else v.sees k := by
  simp only [step, advance, hostAway, hu.name, hu.host]
  refine (sees_amend (u.name, u.host) (fun w => { w with away := trim text })
    (fun _ => rfl) k).trans ?_
  simp only [sees, Option.map_map]
  rfl

/-- **What a host makes of the announcement of a user** it did not know. The mark of an observer is
not in it, and so is lost. -/
theorem sees_announceUser (hu : Entry own u) (hv : Callsigns.normalize v.hostName = v.hostName)
    (hnone : v.sees u.key = none) (k : Text × Text) :
    ((HostLink.announceUser u).foldl (heed now) v).sees k =
      if k = u.key then told v.hostName u else v.sees k := by
  obtain ⟨t, ht⟩ := HostBridge.fromUnix_toUnix u.joinedAt
  have hjoin : heed now v (.hostUser u.name u.host (HostBridge.toUnix u.joinedAt) (-1) u.channel
      u.personal false) =
        step v (now, .hostUser u.name u.host t (-1) u.channel u.personal false) := by
    simp only [heed, HostBridge.toEvent, ht]
    rfl
  have haway : ∀ v : Hub, heed now v (.hostAway u.name u.host (HostBridge.toUnix u.joinedAt)
      u.away) = step v (now, .hostAway u.name u.host t u.away) := by
    intro v
    simp only [heed, HostBridge.toEvent, ht]
    rfl
  have hpersonal : ∀ v : Hub, heed now v (.hostUserData u.name u.host u.personal) =
      step v (now, .hostPersonal u.name u.host u.personal) := fun _ => rfl
  have hlisted := sees_hostUser now hu hv hnone t
  rw [HostLink.announceUser, List.foldl_cons, hjoin, List.foldl_append]
  generalize step v (now, .hostUser u.name u.host t (-1) u.channel u.personal false) = joined
    at hlisted ⊢
  -- the personal text has come with the join
  have hdescribed : ∀ k, ((if u.personal.length ≠ 0 then
      [HostCommand.hostUserData u.name u.host u.personal] else []).foldl (heed now) joined).sees k =
        joined.sees k := by
    intro k
    split
    · rw [List.foldl_cons, hpersonal, List.foldl_nil, sees_hostPersonal now hu]
      split
      · rename_i hk
        rw [hk, hlisted, if_pos rfl, told]
        split
        · rfl
        · rfl
      · rfl
    · rfl
  generalize (if u.personal.length ≠ 0 then
    [HostCommand.hostUserData u.name u.host u.personal] else []).foldl (heed now) joined = described
    at hdescribed ⊢
  split
  · rw [List.foldl_cons, haway, List.foldl_nil, sees_hostAway now hu, hdescribed, hdescribed,
      hlisted, hlisted, if_pos rfl, hu.away, told]
    by_cases hk : k = u.key
    · rw [if_pos hk, if_pos hk]
      split
      · rfl
      · rfl
    · rw [if_neg hk, if_neg hk, if_neg hk]
  · rename_i hlength
    rw [List.foldl_nil, hdescribed, hlisted, told]
    have hempty : u.away = [] := by simpa using hlength
    split
    · split
      · rw [hempty]
        rfl
      · rfl
    · rfl

end Users

/-! ### What a peer makes of a channel -/

/-- The announcement of a channel: its topic and its modes. -/
def announceTopic (h : Hub) (channel : Int32) : List HostCommand :=
  let state := h.channelState channel
  if state.topic.length ≠ 0 then
    [.hostTopic (if state.topicSetBy.length = 0 then "conversd".toList else state.topicSetBy)
      h.hostName ((state.topicSetAt.map HostBridge.toUnix).getD 0) channel state.topic]
  else []

def announceModes (h : Hub) (channel : Int32) : List HostCommand :=
  let state := h.channelState channel
  if state.modes ≠ ∅ then [.hostMode channel (ChannelModes.toWire state.modes)] else []

theorem presence_eq (h : Hub) :
    Node.presence h = h.networkUsers.flatMap HostLink.announceUser ++
      h.listChannels.flatMap fun channel => h.announceTopic channel ++ h.announceModes channel :=
  rfl

section Channels

variable {v : Hub} (now : DateTimeOffset) {c : Int32}

theorem topicSetAt_channelState (v : Hub) (c : Int32) :
    (v.channels.get? c).bind ChannelState.topicSetAt = (v.channelState c).topicSetAt := by
  rw [channelState]
  rcases v.channels.get? c with _ | state
  · rfl
  · rfl

/-- A topic is taken where none was set. -/
theorem channelState_hostTopic {channel : Int32}
    (hnone : (v.channelState channel).topicSetAt = none) (user host : Text) (t : DateTimeOffset)
    (text : Text) (c : Int32) :
    (step v (now, .hostTopic user host t channel text)).channelState c =
      if ChannelNumber.isValid channel = true ∧ c = channel then
        { v.channelState c with
          topic := trim text, topicSetBy := Callsigns.normalize user, topicSetAt := some t }
      else v.channelState c := by
  simp only [step, advance, hostTopic, topicSetAt_channelState, hnone, Option.any_none]
  by_cases hvalid : ChannelNumber.isValid channel = true
  · simp only [hvalid, Bool.not_true, Bool.false_eq_true, if_false, true_and]
    exact channelState_applyTopic _ _ _ _ c
  · simp [hvalid, ignore]

/-- Modes are set on a channel. -/
theorem channelState_hostMode (channel : Int32) (options : Text) (c : Int32) :
    (step v (now, .hostMode channel options)).channelState c =
      if ChannelNumber.isValid channel = true ∧ c = channel then
        { v.channelState c with
          modes := ChannelModes.apply (v.modesOf channel) options (channel = ChannelNumber.random) }
      else v.channelState c := by
  simp only [step, advance, hostMode]
  by_cases hvalid : ChannelNumber.isValid channel = true
  · simp only [hvalid, Bool.not_true, Bool.false_eq_true, if_false, true_and]
    split
    · rename_i hsame
      split
      · rename_i hc
        rw [hsame, hc, modesOf_eq]
        rfl
      · rfl
    · exact channelState_setModes _ _ c
  · simp [hvalid, ignore]

theorem wholeSeconds_wholeSeconds (t : DateTimeOffset) :
    t.wholeSeconds.wholeSeconds = t.wholeSeconds := by
  simp [DateTimeOffset.wholeSeconds]

/-- **What a host makes of the topic** of a channel where it had none. It is trimmed on arrival, and
its moment is cut to whole seconds. -/
theorem channelState_announceTopic {h : Hub} (hcharted : h.Charted)
    (htime : ∀ t ∈ (h.channelState c).topicSetAt, 0 ≤ t.toUnixTimeSeconds)
    (hnew : v.channelState c = ChannelState.new) :
    let v' := (h.announceTopic c).foldl (heed now) v
    (∀ c', c' ≠ c → v'.channelState c' = v.channelState c') ∧ (v'.channelState c).modes = ∅ ∧
      shownTopic (v'.channelState c) = if ChannelNumber.isValid c = true then
        shownTopic { h.channelState c with topic := trim (h.channelState c).topic } else none := by
  rcases htopic : (h.channelState c).topic with _ | ⟨a, text⟩
  · have hnothing : h.announceTopic c = [] := by
      rw [announceTopic, htopic]
      rfl
    rw [hnothing]
    refine ⟨fun _ _ => rfl, ?_, ?_⟩
    · rw [List.foldl_nil, hnew]
      rfl
    · rw [List.foldl_nil, hnew]
      split
      · rfl
      · rfl
  · obtain ⟨t, ht⟩ := Option.isSome_iff_exists.mp
      (hcharted.dated c (by rw [htopic]; exact List.cons_ne_nil a text))
    have hunix := HostBridge.fromUnix_toUnix_of_nonneg (htime t ht)
    have hheed : (h.announceTopic c).foldl (heed now) v = step v (now, .hostTopic
        (if (h.channelState c).topicSetBy.length = 0 then "conversd".toList
          else (h.channelState c).topicSetBy) h.hostName t.wholeSeconds c (a :: text)) := by
      rw [announceTopic, htopic, ht]
      simp only [List.length_cons, ne_eq, Nat.add_one_ne_zero, not_false_eq_true, if_true,
        Option.map_some, Option.getD_some, List.foldl_cons, List.foldl_nil, heed,
        HostBridge.toEvent, hunix]
      rfl
    have hnone : (v.channelState c).topicSetAt = none := by
      rw [hnew]
      rfl
    rw [hheed]
    refine ⟨fun c' hc' => ?_, ?_, ?_⟩
    · rw [channelState_hostTopic now hnone, if_neg fun hbad => hc' hbad.2]
    · rw [channelState_hostTopic now hnone, hnew]
      split
      · rfl
      · rfl
    · rw [channelState_hostTopic now hnone, hnew]
      by_cases hvalid : ChannelNumber.isValid c = true
      · rw [if_pos ⟨hvalid, rfl⟩, if_pos hvalid]
        simp only [shownTopic, ht, Option.map_some, wholeSeconds_wholeSeconds]
      · rw [if_neg fun hbad => hvalid hbad.1, if_neg hvalid]
        rfl

/-- **What a host makes of the modes** of a channel where it had none. They are added to the modes
there, so there must be none. -/
theorem channelState_announceModes {h : Hub} (hcharted : h.Charted)
    (hnone : (v.channelState c).modes = ∅) (c' : Int32) :
    ((h.announceModes c).foldl (heed now) v).channelState c' =
      if c' = c then { v.channelState c with modes := h.modesOf c } else v.channelState c' := by
  rw [modesOf_eq]
  by_cases hmodes : (h.channelState c).modes = ∅
  · have hnothing : h.announceModes c = [] := if_neg (not_not.mpr hmodes)
    rw [hnothing, List.foldl_nil]
    split
    · rename_i hc
      rw [hc, hmodes, ← hnone]
    · rfl
  · have hheed : (h.announceModes c).foldl (heed now) v =
        step v (now, .hostMode c (ChannelModes.toWire (h.channelState c).modes)) := by
      rw [announceModes, if_pos hmodes]
      rfl
    obtain ⟨flag, hflag⟩ := Finset.nonempty_iff_ne_empty.mpr hmodes
    have hmoded := hcharted.moded c
    rw [modesOf_eq] at hmoded
    -- the flags are those the channel takes
    have happly : ChannelModes.apply (v.modesOf c) (ChannelModes.toWire (h.channelState c).modes)
        (c = ChannelNumber.random) = (h.channelState c).modes := by
      ext flag
      rw [ChannelModes.mem_apply_toWire, modesOf_eq, hnone]
      constructor
      · rintro (hbad | ⟨-, hmem⟩)
        · exact absurd hbad (Finset.notMem_empty flag)
        · exact hmem
      · intro hmem
        exact Or.inr ⟨(hmoded flag hmem).2, hmem⟩
    rw [hheed, channelState_hostMode, happly]
    by_cases hc : c' = c
    · rw [if_pos ⟨(hmoded flag hflag).1, hc⟩, if_pos hc, hc]
    · rw [if_neg fun hbad => hc hbad.2, if_neg hc]

end Channels

/-! ### What a peer makes of the announcement -/

section Announcement

variable {v : Hub} (now : DateTimeOffset)

/-- The commands that are about a channel. -/
def isOfChannel : HostCommand → Bool
  | .hostTopic .. | .hostMode .. => true
  | _ => false

/-- A command that is about a channel sets it, and is about no user. -/
theorem event_of_toEvent {command : HostCommand} {e : ConversEvent}
    (he : HostBridge.toEvent command = .ok (some e)) :
    setsChannel e = isOfChannel command ∧ (isOfChannel command = true → e.isOfUser = false) := by
  have hstamp : ∀ (seconds : Int64) (f : DateTimeOffset → ConversEvent),
      (do let t ← HostBridge.fromUnix seconds; .ok (some (f t))) = Except.ok (some e) →
        ∃ t, f t = e := by
    intro seconds f hf
    rcases ht : HostBridge.fromUnix seconds with fault | t
    · rw [ht] at hf
      cases hf
    · rw [ht] at hf
      cases hf
      exact ⟨t, rfl⟩
  cases command with
  | hostUser user host timestamp fromChannel toChannel text isObserver =>
    obtain ⟨t, rfl⟩ := hstamp timestamp _ he
    exact ⟨rfl, nofun⟩
  | hostAway user host time text =>
    obtain ⟨t, rfl⟩ := hstamp time _ he
    exact ⟨rfl, nofun⟩
  | hostTopic user host time channel text =>
    obtain ⟨t, rfl⟩ := hstamp time _ he
    exact ⟨rfl, fun _ => rfl⟩
  | hostHandshake hostname software facilities => cases he
  | hostMode channel options =>
    cases he
    exact ⟨rfl, fun _ => rfl⟩
  | _ =>
    cases he
    exact ⟨rfl, nofun⟩

/-- **The frame of a command.** What a command does not speak of is so left aside. -/
theorem heed_frame {β : Type*} (f : Hub → β) {command : HostCommand}
    (hf : ∀ v e, HostBridge.toEvent command = .ok (some e) → f (step v (now, e)) = f v) (v : Hub) :
    f (heed now v command) = f v := by
  rw [heed]
  split
  · rename_i e he
    exact hf v e he
  · rfl

/-- What no command changes is not changed by all of them. -/
theorem foldl_heed_frame {β : Type*} (f : Hub → β) {commands : List HostCommand}
    (hf : ∀ c ∈ commands, ∀ v, f (heed now v c) = f v) (v : Hub) :
    f (commands.foldl (heed now) v) = f v := by
  induction commands generalizing v with
  | nil => rfl
  | cons c commands ih =>
    rw [List.foldl_cons, ih (fun d hd => hf d (List.mem_cons_of_mem _ hd)), hf c List.mem_cons_self]

theorem hostName_foldl_heed (commands : List HostCommand) (v : Hub) :
    (commands.foldl (heed now) v).hostName = v.hostName :=
  foldl_heed_frame now hostName (fun _ _ => heed_frame now hostName fun v e _ =>
    hostName_step v now e) v

/-- A user's announcement leaves the channels alone. -/
theorem channels_announceUser (u : NetworkUser) (v : Hub) :
    ((HostLink.announceUser u).foldl (heed now) v).channels = v.channels := by
  refine foldl_heed_frame now channels (fun c hc => heed_frame now channels fun v e he => ?_) v
  refine channels_step v now ((event_of_toEvent he).1.trans ?_)
  rw [HostLink.announceUser, List.mem_cons, List.mem_append] at hc
  rcases hc with rfl | hc | hc
  · rfl
  · split at hc
    · rw [List.mem_singleton.mp hc]
      rfl
    · cases hc
  · split at hc
    · rw [List.mem_singleton.mp hc]
      rfl
    · cases hc

/-- A channel's announcement leaves the users alone. -/
theorem users_announceChannel (h : Hub) (c : Int32) (v : Hub) :
    ((h.announceTopic c ++ h.announceModes c).foldl (heed now) v).users = v.users := by
  refine foldl_heed_frame now users (fun d hd => heed_frame now users fun v e he => ?_) v
  refine users_step v now (HostBridge.isLocal_of_toEvent he).1 ((event_of_toEvent he).2 ?_)
  rcases List.mem_append.mp hd with hd | hd
  · rw [announceTopic] at hd
    split at hd
    · rw [List.mem_singleton.mp hd]
      rfl
    · cases hd
  · rw [announceModes] at hd
    split at hd
    · rw [List.mem_singleton.mp hd]
      rfl
    · cases hd

/-- **What a host makes of the announcement of some users** it did not know. The order does not
matter, as they are of different users. -/
theorem sees_announceUsers {viewer : Text} (hviewer : Callsigns.normalize viewer = viewer)
    {own : Text} {users : List NetworkUser} (hentry : ∀ u ∈ users, Entry own u)
    (hnodup : (users.map NetworkUser.key).Nodup) (v : Hub) (hv : v.hostName = viewer)
    (hnone : ∀ u ∈ users, v.sees u.key = none) (k : Text × Text) :
    ((users.flatMap HostLink.announceUser).foldl (heed now) v).sees k =
      ((users.find? (NetworkUser.key · = k)).bind (told viewer)).or (v.sees k) := by
  induction users generalizing v with
  | nil => rfl
  | cons u users ih =>
    rw [List.map_cons, List.nodup_cons] at hnodup
    have hu := sees_announceUser now (hentry u List.mem_cons_self) (by rw [hv, hviewer])
      (hnone u List.mem_cons_self)
    have hne : ∀ w ∈ users, w.key ≠ u.key := fun w hw heq =>
      hnodup.1 (heq ▸ List.mem_map_of_mem hw)
    rw [List.flatMap_cons, List.foldl_append, ih (fun w hw => hentry w (List.mem_cons_of_mem _ hw))
      hnodup.2 _ ((hostName_foldl_heed now _ v).trans hv) fun w hw => ?_, hu, hv]
    · by_cases hk : k = u.key
      · have hrest : users.find? (NetworkUser.key · = k) = none := by
          refine List.find?_eq_none.mpr fun w hw heq => hne w hw ?_
          rw [of_decide_eq_true heq, hk]
        have hnot : v.sees k = none := hk ▸ hnone u List.mem_cons_self
        have hfirst : (u :: users).find? (NetworkUser.key · = k) = some u :=
          List.find?_cons_of_pos (decide_eq_true hk.symm)
        rw [if_pos hk, hrest, hfirst, hnot, Option.or_none]
        rfl
      · have hnext : (u :: users).find? (NetworkUser.key · = k) =
            users.find? (NetworkUser.key · = k) :=
          List.find?_cons_of_neg (by simpa using Ne.symm hk)
        rw [if_neg hk, hnext]
    · rw [hu, if_neg (hne w hw)]
      exact hnone w (List.mem_cons_of_mem _ hw)

/-- **What a host makes of the announcement of some channels** it had nothing on. The order does not
matter, as they are of different channels. -/
theorem channelState_announceChannels {h : Hub} (hcharted : h.Charted)
    (htime : ∀ c, ∀ t ∈ (h.channelState c).topicSetAt, 0 ≤ t.toUnixTimeSeconds)
    {channels : List Int32} (hnodup : channels.Nodup) (v : Hub)
    (hnew : ∀ c ∈ channels, v.channelState c = ChannelState.new) :
    let v' := (channels.flatMap fun c => h.announceTopic c ++ h.announceModes c).foldl (heed now) v
    (∀ c, c ∉ channels → v'.channelState c = v.channelState c) ∧
      ∀ c ∈ channels, v'.modesOf c = h.modesOf c ∧
        shownTopic (v'.channelState c) = if ChannelNumber.isValid c = true then
          shownTopic { h.channelState c with topic := trim (h.channelState c).topic }
          else none := by
  induction channels generalizing v with
  | nil => exact ⟨fun _ _ => rfl, fun c hc => absurd hc List.not_mem_nil⟩
  | cons c channels ih =>
    obtain ⟨hnot, hnodup⟩ := List.nodup_cons.mp hnodup
    obtain ⟨hother, hmodes, htopic⟩ :=
      channelState_announceTopic now hcharted (htime c) (hnew c List.mem_cons_self)
    have hboth := channelState_announceModes now hcharted hmodes
    have hfold : ∀ c', c' ≠ c →
        ((h.announceTopic c ++ h.announceModes c).foldl (heed now) v).channelState c' =
          v.channelState c' := by
      intro c' hc'
      rw [List.foldl_append, hboth, if_neg hc', hother c' hc']
    obtain ⟨hrest, hall⟩ := ih hnodup ((h.announceTopic c ++ h.announceModes c).foldl (heed now) v)
      fun c' hc' => (hfold c' fun heq => hnot (heq ▸ hc')).trans
        (hnew c' (List.mem_cons_of_mem _ hc'))
    rw [List.flatMap_cons, List.foldl_append]
    refine ⟨fun c' hc' => ?_, fun c' hc' => ?_⟩
    · rw [List.mem_cons, not_or] at hc'
      rw [hrest c' hc'.2, hfold c' hc'.1]
    · rcases List.mem_cons.mp hc' with rfl | hc'
      · rw [modesOf_eq, hrest c' hnot, List.foldl_append, hboth, if_pos rfl]
        exact ⟨rfl, htopic⟩
      · exact hall c' hc'

end Announcement

/-! ### When the picture is right -/

section Picture

variable {h : Hub} (now : DateTimeOffset) (viewer : Text)

/-- **What a peer shows of a user** is what was told of him. The fold over the whole announcement so
comes to one lookup. -/
theorem sees_view_presence (hf : h.Filed) (k : Text × Text) :
    (view now viewer (Node.presence h)).sees k =
      (h.users.find? k).bind (told (Callsigns.normalize viewer)) := by
  have husers : ∀ (channels : List Int32) (v : Hub), ((channels.flatMap fun c =>
      h.announceTopic c ++ h.announceModes c).foldl (heed now) v).users = v.users := by
    intro channels
    induction channels with
    | nil => exact fun _ => rfl
    | cons c channels ih =>
      intro v
      rw [List.flatMap_cons, List.foldl_append, ih, users_announceChannel]
  have hperm := HostLink.perm_networkUsers h
  have hfind := HostLink.find?_networkUsers h (fun _ => true) k
  have hall : (h.users.find? k).filter (fun _ => true) = h.users.find? k := by
    rcases h.users.find? k with _ | u
    · rfl
    · rfl
  rw [List.filter_true, hall] at hfind
  have hentry : ∀ u ∈ h.networkUsers, Entry h.hostName u := fun u hu =>
    hf.holds.users _ u (Table.mem_records.mp (hperm.mem_iff.mp hu))
  rw [view, presence_eq, List.foldl_append, sees_of_users (husers _ _),
    sees_announceUsers now (Callsigns.normalize_normalize viewer) hentry
      ((hperm.map NetworkUser.key).nodup_iff.mpr h.users.nodup) (fresh viewer) rfl fun _ _ => rfl,
    hfind]
  exact Option.or_none

/-- What is told of a user is what is seen of him, if he can be announced. -/
theorem told_eq_seen_iff {u : NetworkUser} :
    told viewer u = some (seen u) ↔ Announceable viewer u := by
  rw [told]
  constructor
  · intro hsame
    split at hsame
    · rename_i hvalid
      have hparts := Option.some.inj hsame
      simp only [seen, Prod.mk.injEq, true_and] at hparts
      exact ⟨hvalid.1, hvalid.2.1, hvalid.2.2, hparts.2.symm, hparts.1⟩
    · cases hsame
  · rintro ⟨hname, hhost, hforeign, hspeaks, hpersonal⟩
    rw [if_pos ⟨hname, hhost, hforeign⟩, hpersonal, seen, hspeaks]

/-- **The users are right iff each can be announced.** An observer cannot be, and neither can a user
of the host that is told. -/
theorem sees_view_presence_iff (hf : h.Filed) :
    (∀ k, (view now viewer (Node.presence h)).sees k = h.sees k) ↔
      ∀ u ∈ h.users.records, Announceable (Callsigns.normalize viewer) u := by
  simp only [sees_view_presence now viewer hf]
  constructor
  · intro hsame u hu
    have hfind := Table.mem_records.mp hu
    have hk := hsame u.key
    rw [sees, hfind] at hk
    exact (told_eq_seen_iff _).mp hk
  · intro hall k
    rw [sees]
    rcases hfind : h.users.find? k with _ | u
    · rfl
    · exact (told_eq_seen_iff _).mpr (hall u (Table.mem_of_find? hfind))

/-- The channels announced are all that have metadata. -/
theorem channelState_of_not_listed {c : Int32} (hc : c ∉ h.listChannels) :
    h.channelState c = ChannelState.new := by
  rw [channelState, Table.Dict.get?]
  rcases hfind : h.channels.find? c with _ | p
  · rfl
  · refine absurd (List.mem_mergeSort.mpr (List.mem_dedup.mpr (List.mem_append_right _ ?_))) hc
    have hkey : p.1 = c := Table.key_of_find? hfind
    exact List.mem_map.mpr ⟨p, Table.mem_of_find? hfind, hkey⟩

/-- **The modes a peer shows are ours, and its topics are ours, trimmed.** The two halves of the
announcement do not touch each other. -/
theorem channelState_view_presence (hcharted : h.Charted)
    (htime : ∀ c, ∀ t ∈ (h.channelState c).topicSetAt, 0 ≤ t.toUnixTimeSeconds) (c : Int32) :
    (view now viewer (Node.presence h)).modesOf c = h.modesOf c ∧
      shownTopic ((view now viewer (Node.presence h)).channelState c) =
        if ChannelNumber.isValid c = true then
          shownTopic { h.channelState c with topic := trim (h.channelState c).topic }
        else none := by
  have hchannels : ∀ (users : List NetworkUser) (v : Hub),
      ((users.flatMap HostLink.announceUser).foldl (heed now) v).channels = v.channels := by
    intro users
    induction users with
    | nil => exact fun _ => rfl
    | cons u users ih =>
      intro v
      rw [List.flatMap_cons, List.foldl_append, ih, channels_announceUser]
  have hnew : ∀ c, ((h.networkUsers.flatMap HostLink.announceUser).foldl (heed now)
      (fresh viewer)).channelState c = ChannelState.new := by
    intro c
    rw [channelState, hchannels]
    rfl
  have hnodup : h.listChannels.Nodup :=
    (List.mergeSort_perm _ _).nodup_iff.mpr (List.nodup_dedup _)
  obtain ⟨hother, hlisted⟩ :=
    channelState_announceChannels now hcharted htime hnodup _ fun c _ => hnew c
  rw [view, presence_eq, List.foldl_append]
  by_cases hc : c ∈ h.listChannels
  · exact hlisted c hc
  · have hstate := channelState_of_not_listed hc
    rw [modesOf_eq, modesOf_eq, hother c hc, hnew, hstate]
    refine ⟨rfl, ?_⟩
    split
    · rfl
    · rfl

/-- A topic is shown as it is, if it can be announced. -/
theorem shownTopic_eq_iff (c : Int32) (state : ChannelState) :
    (if ChannelNumber.isValid c = true then
        shownTopic { state with topic := trim state.topic } else none) = shownTopic state ↔
      Legible c state := by
  rw [Legible, shownTopic, shownTopic]
  rcases htopic : state.topic with _ | ⟨a, text⟩
  · simp [trim]
  · rw [if_pos (by simp : (a :: text).length ≠ 0)]
    constructor
    · intro hsame _
      split at hsame
      · rename_i hvalid
        split at hsame
        · exact ⟨hvalid, (Prod.mk.inj (Option.some.inj hsame)).1⟩
        · cases hsame
      · cases hsame
    · intro hlegible
      obtain ⟨hvalid, htrim⟩ := hlegible (List.cons_ne_nil a text)
      rw [if_pos hvalid]
      simp only [htrim]
      exact if_pos (by simp)

/-- What every channel has is what the channels with metadata have. -/
theorem forall_channelState_iff {P : Int32 → ChannelState → Prop}
    (hnew : ∀ c, P c ChannelState.new) :
    (∀ c, P c (h.channelState c)) ↔ ∀ p ∈ h.channels.records, P p.1 p.2 := by
  constructor
  · intro hall p hp
    have hc := hall p.1
    rw [channelState, Table.Dict.get?, Table.mem_records.mp hp] at hc
    exact hc
  · intro hall c
    rw [channelState, Table.Dict.get?]
    rcases hfind : h.channels.find? c with _ | p
    · exact hnew c
    · have hkey : p.1 = c := Table.key_of_find? hfind
      exact hkey ▸ hall p (Table.mem_of_find? hfind)

/-- **The picture a peer makes of us**, in any state of a run whose topics were set in 1970 or
later: it is right iff every user can be announced, and every topic. The conditions are on the users
and the topics one by one, and on nothing else. -/
theorem pictures_iff {hostName : Text} {store : Option ConversStore} {start : Hub}
    (hnew : new hostName store = .ok start) (inputs : List Input)
    (htime : ∀ p ∈ (Run.final step start inputs).channels.records, ∀ t ∈ p.2.topicSetAt,
      0 ≤ t.toUnixTimeSeconds) :
    Pictures (Run.final step start inputs)
        (view now viewer (Node.presence (Run.final step start inputs))) ↔
      (∀ u ∈ (Run.final step start inputs).users.records,
          Announceable (Callsigns.normalize viewer) u) ∧
        ∀ p ∈ (Run.final step start inputs).channels.records, Legible p.1 p.2 := by
  have hf := (Run.invariant (Filed.of_new hnew) inputs fun p _ hf => hf.step p.2.1 p.2.2).2
  have hcharted :=
    (Run.invariant (Charted.of_new hnew) inputs fun p _ hc => hc.step p.2.1 p.2.2).2
  generalize Run.final step start inputs = h at htime hf hcharted ⊢
  have htimes : ∀ c, ∀ t ∈ (h.channelState c).topicSetAt, 0 ≤ t.toUnixTimeSeconds :=
    (forall_channelState_iff (P := fun _ state => ∀ t ∈ state.topicSetAt, 0 ≤ t.toUnixTimeSeconds)
      fun _ t ht => absurd ht (Option.not_mem_none t)).mpr htime
  have hview := channelState_view_presence now viewer hcharted htimes
  rw [← forall_channelState_iff fun c hbad => absurd rfl hbad]
  constructor
  · rintro ⟨husers, htopics, -⟩
    refine ⟨(sees_view_presence_iff now viewer hf).mp husers, fun c => ?_⟩
    exact (shownTopic_eq_iff c _).mp ((hview c).2.symm.trans (htopics c))
  · rintro ⟨husers, htopics⟩
    exact ⟨(sees_view_presence_iff now viewer hf).mpr husers,
      fun c => (hview c).2.trans ((shownTopic_eq_iff c _).mpr (htopics c)), fun c => (hview c).1⟩

/-- A moment of the year 1970. -/
def exampleSeventies : DateTimeOffset := ⟨621355968000000000, by omega⟩

/-- A user of ours sets a topic, and a user of another host comes to a secret channel. -/
def exampleVisitor (observer : Bool) : List Input :=
  [(exampleSeventies, .localJoin "web-1".toList "m0abc".toList 7),
    (exampleSeventies, .localSetPersonal "web-1".toList "Ann".toList),
    (exampleSeventies, .localSetTopic "web-1".toList "hello".toList),
    (exampleSeventies, .hostMode 100 "+s".toList),
    (exampleSeventies,
      .hostUser "gb7abc".toList "FAR".toList exampleSeventies (-1) 100 [] observer)]

theorem new_exampleVisitor : new "NODE".toList none = .ok (fresh "NODE".toList) :=
  new_none (by decide)

/-- Everybody there can be announced. -/
theorem pictures_exampleVisitor :
    Pictures (Run.final step (fresh "NODE".toList) (exampleVisitor false))
      (view exampleSeventies "PEER".toList
        (Node.presence (Run.final step (fresh "NODE".toList) (exampleVisitor false)))) :=
  (pictures_iff exampleSeventies "PEER".toList new_exampleVisitor (exampleVisitor false)
    (by decide +kernel)).mpr ⟨by decide +kernel, by decide +kernel⟩

/-- **An observer is announced as a user who speaks.** The hub that hears of him has no way to tell
the two apart. -/
theorem not_pictures_exampleVisitor :
    ¬Pictures (Run.final step (fresh "NODE".toList) (exampleVisitor true))
      (view exampleSeventies "PEER".toList
        (Node.presence (Run.final step (fresh "NODE".toList) (exampleVisitor true)))) := by
  intro hpictures
  have hf := (Run.invariant (Filed.of_new new_exampleVisitor) (exampleVisitor true)
    fun p _ hf => hf.step p.2.1 p.2.2).2
  have hall := (sees_view_presence_iff exampleSeventies "PEER".toList hf).mp hpictures.users
  exact absurd hall (by decide +kernel)

end Picture

end Hub

end Convers
