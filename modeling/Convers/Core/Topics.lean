import Convers.Core.Authority
import Convers.Lib.Newest

/-!
# Topics

Each channel holds one topic, and two events write it. A topic from the network goes
through the register of `Newest`: it is not taken when the one held is newer. A topic
set by a session here is always taken, with the clock of this host. So the newest topic
is the one held, along a whole run, exactly when no session sets a topic while one with
a later timestamp is held (`Convers.Hub.newestWins_iff`); for the network alone the order
of arrival does not matter.
-/

namespace Convers

namespace Hub

/-- A topic: its text, who set it, and when. -/
structure Topic where
  text : Text
  setBy : Text
  setAt : DateTimeOffset
  deriving DecidableEq

/-- The age of a topic. -/
def Topic.age (t : Topic) : ℕ := t.setAt.ticks

/-- The topic a channel holds, when one was set. -/
def heldTopic (h : Hub) (c : Int32) : Option Topic :=
  (h.channels.get? c).bind fun state =>
    state.topicSetAt.map fun setAt => ⟨state.topic, state.topicSetBy, setAt⟩

/-- The topic an event puts forward, with its channel: a session must be attached and not
be kept out by the topic lock, and a channel of the network must be one. -/
def offeredTopic (h : Hub) (now : DateTimeOffset) : ConversEvent → Option (Int32 × Topic)
  | .localSetTopic sessionId topic =>
    match h.sessions.find? sessionId with
    | some session =>
      if .topicLocked ∈ h.modesOf session.channel ∧ !session.isOperator then none
      else some (session.channel, ⟨trim topic, session.callsign, now⟩)
    | none => none
  | .hostTopic user _ timestamp channel text =>
    if ChannelNumber.isValid channel then
      some (channel, ⟨trim text, Callsigns.normalize user, timestamp⟩)
    else none
  | _ => none

/-! ### What a step does to the topics -/

section Frame

variable (h : Hub) (c : Int32)

theorem heldTopic_congr {h h' : Hub} (hchannels : h'.channels = h.channels) (c : Int32) :
    h'.heldTopic c = h.heldTopic c := by
  rw [heldTopic, hchannels, heldTopic]

/-- The guard of `HostTopic`. -/
theorem newer_iff (timestamp : DateTimeOffset) :
    ((h.channels.get? c).bind ChannelState.topicSetAt).any (·.ticks > timestamp.ticks) = true ↔
      ∃ t ∈ h.heldTopic c, timestamp.ticks < t.age := by
  rw [heldTopic]
  rcases h.channels.get? c with _ | state
  · simp
  · rcases hat : state.topicSetAt with _ | setAt
    · simp [hat]
    · simp [hat, Topic.age]

theorem heldTopic_applyTopic (channel : Int32) (topic setBy : Text) (setAt : DateTimeOffset) :
    (h.applyTopic channel topic setBy setAt).heldTopic c =
      if c = channel then some ⟨topic, setBy, setAt⟩ else h.heldTopic c := by
  simp only [heldTopic, applyTopic, Table.Dict.get?_set]
  by_cases hc : c = channel
  · simp [hc]
  · simp [hc]

theorem heldTopic_setModes (channel : Int32) (modes : ChannelMode) :
    (h.setModes channel modes).heldTopic c = h.heldTopic c := by
  simp only [heldTopic, setModes, Table.Dict.get?_set, channelState]
  by_cases hc : c = channel
  · subst hc
    rcases h.channels.get? c with _ | state
    · simp [ChannelState.new]
    · simp
  · simp [hc]

theorem channels_grantOperator (call : Text) (channel : Int32) (grant : Bool) :
    (h.grantOperator call channel grant).channels = h.channels := by
  rw [grantOperator, refreshSessionOpFlags, foldl_refreshSession, applyOperator]
  repeat' split
  all_goals rfl

theorem channels_recordInvite (callsign : Text) (channel : Int32) :
    (h.recordInvite callsign channel).channels = h.channels := by
  rw [recordInvite_eq]
  rfl

end Frame

/-- The state of a channel whose topic is read from the store. -/
def stateOfRow (row : StoredTopic) : ChannelState :=
  { ChannelState.new with
    topic := row.topic, topicSetBy := row.setBy, topicSetAt := some row.setAt }

/-- A new hub has the channels of its store. -/
theorem get?_channels_of_new {hostName : Text} {store : Option ConversStore} {h : Hub}
    (hnew : new hostName store = .ok h) (c : Int32) :
    h.channels.get? c = (store.bind (·.topics.find? c)).map stateOfRow := by
  unfold new at hnew
  split at hnew
  · cases hnew
  · cases hnew
    rcases store with _ | s
    · rfl
    · have hread := Table.find?_foldl_put_map s.topics (Table.empty : Table.Dict Int32 ChannelState)
        (fun row => (row.channel, stateOfRow row)) (fun _ => rfl) c
      rw [List.foldl_map] at hread
      simp only [Table.Dict.get?, Table.Dict.set, Option.bind_some]
      refine (congrArg _ hread).trans ?_
      rcases s.topics.find? c with _ | row
      · rfl
      · rfl

/-- The events that set a topic or the modes of a channel. -/
def setsChannel : ConversEvent → Bool
  | .localSetTopic .. | .hostTopic .. | .localSetMode .. | .hostMode .. => true
  | _ => false

/-- **The frame of the channels**: no other event changes any. The topics and the modes have to be
looked at in four handlers only. -/
theorem channels_step (h : Hub) (now : DateTimeOffset) {e : ConversEvent}
    (he : setsChannel e = false) : (step h (now, e)).channels = h.channels := by
  cases e with
  | localSetTopic | hostTopic | localSetMode | hostMode => cases he
  | localSetPersonal sessionId personal =>
    rcases hs : h.sessions.find? sessionId with _ | s
    · simp only [step, advance, localSetPersonal, hs, ignore]
    · obtain rfl : s.id = sessionId := Table.key_of_find? hs
      rcases hkeep : h.keepsProfile s.callsign with _ | _
      · rw [step, advance, localSetPersonal_of_not_keepsProfile now personal hs hkeep]
        rfl
      · obtain ⟨store, hset⟩ := localSetPersonal_of_keepsProfile now personal hs hkeep
        rw [step, advance, hset]
        rfl
  | localInvite sessionId toUser channel =>
    simp only [step, advance, localInvite]
    repeat' split
    all_goals first | rfl | exact channels_recordInvite h _ _
  | hostInvite source user channel =>
    simp only [step, advance, hostInvite]
    repeat' split
    all_goals first | rfl | exact channels_recordInvite h _ _
  | localSetOperator sessionId channel grant =>
    simp only [step, advance, localSetOperator]
    repeat' split
    all_goals first | rfl | exact channels_grantOperator h _ _ _
  | hostOper user host channel grant =>
    simp only [step, advance, hostOper]
    repeat' split
    all_goals first | rfl | exact channels_grantOperator h _ _ _
  | _ =>
    simp only [step, advance, localJoin, localSwitchChannel, localSay, localPrivateMessage,
      localSetAway, localLeave, hostUser, hostChannelMessage, hostPrivateMessage, hostPersonal,
      hostAway]
    repeat' split
    all_goals rfl

/-- **The inversion of a step**, for the topics: the one put forward by a session is taken,
the one put forward by a host is offered, and no other event changes any. -/
theorem heldTopic_step (h : Hub) (now : DateTimeOffset) (e : ConversEvent) (c : Int32) :
    (step h (now, e)).heldTopic c =
      match h.offeredTopic now e with
      | some (channel, topic) =>
        if c = channel then
          if e.isLocal then some topic else Newest.offer Topic.age (h.heldTopic c) topic
        else h.heldTopic c
      | none => h.heldTopic c := by
  cases e with
  | localSetTopic sessionId topic =>
    simp only [step, advance, localSetTopic, offeredTopic]
    rcases hs : h.sessions.find? sessionId with _ | session
    · rfl
    · dsimp only
      split
      · rfl
      · exact heldTopic_applyTopic h c _ _ _ _
  | hostTopic user host timestamp channel text =>
    simp only [step, advance, hostTopic, offeredTopic]
    by_cases hvalid : ChannelNumber.isValid channel = true
    swap
    · simp [hvalid, ignore]
    rw [hvalid]
    simp only [Bool.not_true, Bool.false_eq_true, if_false, if_true]
    by_cases hc : c = channel
    swap
    · rw [if_neg hc]
      split
      · rfl
      · rw [heldTopic_applyTopic, if_neg hc]
    subst hc
    rw [if_pos rfl]
    split
    · rename_i hnewer
      obtain ⟨t, ht, hlt⟩ := (newer_iff h c timestamp).mp hnewer
      exact (Newest.offer_of_newer ht (show Topic.age ⟨_, _, timestamp⟩ < t.age from hlt)).symm
    · rename_i hnot
      rw [heldTopic_applyTopic, if_pos rfl]
      refine (Newest.offer_of_not_newer fun t ht => not_lt.mp fun hlt => hnot ?_).symm
      exact (newer_iff h c timestamp).mpr ⟨t, ht, hlt⟩
  | localSetMode sessionId channel options =>
    simp only [step, advance, localSetMode, offeredTopic]
    repeat' split
    all_goals first | rfl | exact heldTopic_setModes h c _ _
  | hostMode channel options =>
    simp only [step, advance, hostMode, offeredTopic]
    repeat' split
    all_goals first | rfl | exact heldTopic_setModes h c _ _
  | _ => exact heldTopic_congr (channels_step h now rfl) c

/-! ### Along a run -/

/-- A topic, if it is on a channel. -/
def onChannel (c : Int32) : Int32 × Topic → Option Topic
  | (channel, topic) => if channel = c then some topic else none

/-- The topics put forward for a channel in a run, the one it starts with first. -/
def putForward (h : Hub) (inputs : List Input) (c : Int32) : List Topic :=
  (h.heldTopic c).toList ++ (Run.trace step h inputs).filterMap fun p =>
    (p.1.offeredTopic p.2.1 p.2.2).bind (onChannel c)

/-- **The newest topic wins** in a run. -/
structure NewestWins (h : Hub) (inputs : List Input) : Prop where
  /-- What a channel holds never gets older. -/
  rises : ∀ p ∈ Run.trace step h inputs, ∀ c, ∀ t ∈ p.1.heldTopic c,
    ∃ t' ∈ (step p.1 p.2).heldTopic c, t.age ≤ t'.age
  /-- What a channel holds is the newest of what was put forward for it so far. -/
  newest : ∀ before after, inputs = before ++ after → ∀ c,
    Newest.IsNewest Topic.age (h.putForward before c) ((Run.final step h before).heldTopic c)

/-- A session that sets a topic does so when no later one is held. -/
def SetsLater (h : Hub) (input : Input) : Prop :=
  input.2.isLocal = true → ∀ channel topic, h.offeredTopic input.1 input.2 = some (channel, topic) →
    ∀ held ∈ h.heldTopic channel, held.age ≤ topic.age

instance (h : Hub) (input : Input) : Decidable (h.SetsLater input) :=
  decidable_of_iff
    (input.2.isLocal = true → ∀ offer ∈ h.offeredTopic input.1 input.2,
      ∀ held ∈ h.heldTopic offer.1, held.age ≤ offer.2.age)
    ⟨fun hlater hlocal channel topic hoffer => hlater hlocal (channel, topic) hoffer,
      fun hlater hlocal offer hoffer => hlater hlocal offer.1 offer.2 hoffer⟩

/-- **A step keeps the newest** if it is a session's turn only when no later topic is held. The
offers of the network keep it without a condition. -/
theorem isNewest_step {h : Hub} {input : Input} (hlater : h.SetsLater input) {values : List Topic}
    {c : Int32} (hheld : Newest.IsNewest Topic.age values (h.heldTopic c)) :
    Newest.IsNewest Topic.age
      (values ++ ((h.offeredTopic input.1 input.2).bind (onChannel c)).toList)
      ((step h input).heldTopic c) := by
  obtain ⟨now, e⟩ := input
  rw [heldTopic_step]
  rcases hoffer : h.offeredTopic now e with _ | ⟨channel, topic⟩
  · simpa using hheld
  · by_cases hc : c = channel
    · subst hc
      simp only [Option.bind_some, onChannel, if_pos, Option.toList_some]
      by_cases hlocal : e.isLocal = true
      · rw [if_pos hlocal]
        exact hheld.replace (hlater hlocal c topic hoffer)
      · rw [if_neg hlocal]
        exact hheld.offer topic
    · simpa [onChannel, hc, Ne.symm hc] using hheld

/-- **In a run, what a channel holds is the newest.** The register is so what it was meant to be, as
long as the clocks here are not behind. -/
theorem isNewest_final {h : Hub} {inputs : List Input}
    (hlater : ∀ p ∈ Run.trace step h inputs, SetsLater p.1 p.2) (c : Int32) :
    Newest.IsNewest Topic.age (h.putForward inputs c)
      ((Run.final step h inputs).heldTopic c) := by
  induction inputs using List.reverseRecOn with
  | nil =>
    rw [putForward, Run.trace_nil, List.filterMap_nil, List.append_nil]
    exact Newest.isNewest_toList _
  | append_singleton inputs input ih =>
    rw [Run.trace_append] at hlater
    have hbefore := ih fun p hp => hlater p (List.mem_append_left _ hp)
    have hstep := isNewest_step (hlater (Run.final step h inputs, input)
      (List.mem_append_right _ List.mem_cons_self)) hbefore
    have hforward : h.putForward (inputs ++ [input]) c = h.putForward inputs c ++
        (((Run.final step h inputs).offeredTopic input.1 input.2).bind (onChannel c)).toList := by
      rw [putForward, putForward, Run.trace_append, List.filterMap_append, List.append_assoc]
      rcases hoffer : ((Run.final step h inputs).offeredTopic input.1 input.2).bind (onChannel c)
        with _ | topic
      · simp [hoffer]
      · simp [hoffer]
    rw [hforward, Run.final_append]
    exact hstep

/-- A topic announced by another host. -/
structure Announcement where
  user : Text
  host : Text
  timestamp : DateTimeOffset
  channel : Int32
  text : Text
  deriving DecidableEq

/-- The event of an announcement. -/
def Announcement.event (a : Announcement) : ConversEvent :=
  .hostTopic a.user a.host a.timestamp a.channel a.text

/-- The topic an announcement puts forward for a channel. -/
def Announcement.topicOn (c : Int32) (a : Announcement) : Option Topic :=
  if ChannelNumber.isValid a.channel = true ∧ a.channel = c then
    some ⟨trim a.text, Callsigns.normalize a.user, a.timestamp⟩
  else none

/-- **What a channel holds after some announcements**: each is offered in turn. The run is a fold of
offers, and so falls to the general result on their order. -/
theorem heldTopic_announcements (h : Hub) (c : Int32)
    (inputs : List (DateTimeOffset × Announcement)) :
    (Run.final step h (inputs.map fun input => (input.1, input.2.event))).heldTopic c =
      ((inputs.map Prod.snd).filterMap (Announcement.topicOn c)).foldl (Newest.offer Topic.age)
        (h.heldTopic c) := by
  induction inputs generalizing h with
  | nil => rfl
  | cons input inputs ih =>
    obtain ⟨now, a⟩ := input
    rw [List.map_cons, Run.final_cons, ih, heldTopic_step, List.map_cons]
    by_cases hvalid : ChannelNumber.isValid a.channel = true
    · by_cases hc : a.channel = c
      · have htopic : a.topicOn c = some ⟨trim a.text, Callsigns.normalize a.user, a.timestamp⟩ :=
          if_pos ⟨hvalid, hc⟩
        have hoffer : h.offeredTopic now a.event =
            some (c, ⟨trim a.text, Callsigns.normalize a.user, a.timestamp⟩) := by
          rw [Announcement.event, offeredTopic, if_pos hvalid, hc]
        rw [List.filterMap_cons_some htopic, List.foldl_cons, hoffer]
        simp [Announcement.event, ConversEvent.isLocal]
      · have htopic : a.topicOn c = none := if_neg fun h' => hc h'.2
        rw [List.filterMap_cons_none htopic]
        simp [Announcement.event, offeredTopic, hvalid, Ne.symm hc]
    · have htopic : a.topicOn c = none := if_neg fun h' => hvalid h'.1
      rw [List.filterMap_cons_none htopic]
      simp [Announcement.event, offeredTopic, hvalid]

/-- **Announcements with different timestamps may come in any order.** Two hosts that hear them in
different orders end with the same topic. -/
theorem heldTopic_perm (h : Hub) {inputs inputs' : List (DateTimeOffset × Announcement)}
    (hperm : (inputs.map Prod.snd).Perm (inputs'.map Prod.snd))
    (hdistinct : ((inputs.map Prod.snd).map Announcement.timestamp).Nodup) (c : Int32) :
    (Run.final step h (inputs.map fun input => (input.1, input.2.event))).heldTopic c =
      (Run.final step h (inputs'.map fun input => (input.1, input.2.event))).heldTopic c := by
  rw [heldTopic_announcements, heldTopic_announcements]
  refine Newest.foldl_offer_perm (hperm.filterMap _) (fun s hs t ht hage => ?_) _
  obtain ⟨a, ha, hsa⟩ := List.mem_filterMap.mp hs
  obtain ⟨b, hb, htb⟩ := List.mem_filterMap.mp ht
  have hage_of : ∀ {a : Announcement} {t : Topic}, a.topicOn c = some t →
      t.setAt = a.timestamp := by
    intro a t hat
    rw [Announcement.topicOn] at hat
    split at hat
    · cases hat
      rfl
    · cases hat
  have htime : a.timestamp = b.timestamp := by
    rw [← hage_of hsa, ← hage_of htb]
    rcases hs' : s.setAt with ⟨ticks, hle⟩
    rcases ht' : t.setAt with ⟨ticks', hle'⟩
    have : ticks = ticks' := by simpa [Topic.age, hs', ht'] using hage
    subst this
    rfl
  obtain rfl := List.inj_on_of_nodup_map hdistinct ha hb htime
  exact Option.some.inj (hsa.symm.trans htb)

/-- **The newest topic wins iff no session sets one while a later one is held**; and the
announcements of the network may come in any order. -/
theorem newestWins_iff (h : Hub) (inputs : List Input) :
    (NewestWins h inputs ↔ ∀ p ∈ Run.trace step h inputs, SetsLater p.1 p.2) ∧
      ∀ announcements announcements' : List (DateTimeOffset × Announcement),
        (announcements.map Prod.snd).Perm (announcements'.map Prod.snd) →
        ((announcements.map Prod.snd).map Announcement.timestamp).Nodup → ∀ c,
        (Run.final step h (announcements.map fun a => (a.1, a.2.event))).heldTopic c =
          (Run.final step h (announcements'.map fun a => (a.1, a.2.event))).heldTopic c := by
  refine ⟨⟨fun hwins p hp hlocal channel topic hoffer held hheld => ?_, fun hlater => ?_⟩,
    fun announcements announcements' hperm hdistinct => heldTopic_perm h hperm hdistinct⟩
  · obtain ⟨topic', htopic', hle⟩ := hwins.rises p hp channel held hheld
    obtain ⟨s, now, e⟩ := p
    dsimp only at hoffer hlocal
    rw [heldTopic_step, hoffer] at htopic'
    simp only [if_pos hlocal, if_true, Option.mem_some_iff] at htopic'
    rw [htopic']
    exact hle
  · refine ⟨fun p hp c t ht => ?_, fun before after hsplit c => ?_⟩
    · have hstep := isNewest_step (hlater p hp) (Newest.isNewest_toList (p.1.heldTopic c))
      exact hstep.2 t (List.mem_append_left _ (Option.mem_toList.mpr ht))
    · refine isNewest_final (fun p hp => hlater p ?_) c
      rw [hsplit, Run.trace_append]
      exact List.mem_append_left _ hp

/-- A hub with a session on channel 7. -/
def exampleSpeaker : Hub :=
  ((fresh "NODE".toList).advance ⟨0, zero_ticks_le⟩
    (.localJoin "web-1".toList "m0abc".toList 7)).hub

/-- An announcement for channel 7, with the moment it arrives. -/
def exampleAnnouncement (timestamp : DateTimeOffset) : DateTimeOffset × Announcement :=
  (⟨10, by omega⟩, ⟨"gb7abc".toList, "FAR".toList, timestamp, 7, "hello".toList⟩)

/-- A topic of the network, one that is set here after it, and two of the network of which the
later one comes first. -/
def exampleTurns : List Input :=
  [(⟨10, by omega⟩, .hostTopic "gb7abc".toList "FAR".toList ⟨9, by omega⟩ 7 "hello".toList),
    (⟨11, by omega⟩, .localSetTopic "web-1".toList "here".toList),
    (⟨12, by omega⟩, .hostTopic "gb7abc".toList "FAR".toList ⟨30, by omega⟩ 7 "later".toList),
    (⟨13, by omega⟩, .hostTopic "gb7abc".toList "FAR".toList ⟨20, by omega⟩ 7 "late".toList)]

/-- In such a run the newest topic wins, and two announcements may come in either order. -/
theorem newestWins_exampleTurns :
    NewestWins exampleSpeaker exampleTurns ∧
      ((Run.final step exampleSpeaker exampleTurns).heldTopic 7).map Topic.age = some 30 ∧
        (Run.final step exampleSpeaker
            ([exampleAnnouncement ⟨20, by omega⟩, exampleAnnouncement ⟨30, by omega⟩].map
              fun a => (a.1, a.2.event))).heldTopic 7 =
          (Run.final step exampleSpeaker
            ([exampleAnnouncement ⟨30, by omega⟩, exampleAnnouncement ⟨20, by omega⟩].map
              fun a => (a.1, a.2.event))).heldTopic 7 :=
  ⟨(newestWins_iff exampleSpeaker exampleTurns).1.mpr (by decide +kernel), by decide +kernel,
    (newestWins_iff exampleSpeaker []).2
      [exampleAnnouncement ⟨20, by omega⟩, exampleAnnouncement ⟨30, by omega⟩]
      [exampleAnnouncement ⟨30, by omega⟩, exampleAnnouncement ⟨20, by omega⟩]
      (List.Perm.swap _ _ []) (by decide) 7⟩

/-- A topic of the network with a timestamp ahead of our clock. -/
def exampleAhead : Input :=
  (⟨10, by omega⟩, .hostTopic "gb7abc".toList "FAR".toList ⟨20, by omega⟩ 7 "later".toList)

/-- A topic set here by a clock that has not come so far. -/
def exampleBehind : Input := (⟨11, by omega⟩, .localSetTopic "web-1".toList "earlier".toList)

/-- What the channel holds after the one, and after the other. -/
theorem heldTopic_exampleBehind :
    ((step exampleSpeaker exampleAhead).heldTopic 7).map Topic.age = some 20 ∧
      ((step (step exampleSpeaker exampleAhead) exampleBehind).heldTopic 7).map Topic.age =
        some 11 := by
  decide +kernel

/-- **A topic that is set here replaces a later one.** The session has no guard for it, as a peer
has. -/
theorem not_newestWins_exampleBehind :
    ¬NewestWins exampleSpeaker [exampleAhead, exampleBehind] := by
  intro hwins
  obtain ⟨hbefore, hafter⟩ := heldTopic_exampleBehind
  obtain ⟨held, hheld, hage⟩ := Option.map_eq_some_iff.mp hbefore
  obtain ⟨t, ht, hle⟩ := hwins.rises (step exampleSpeaker exampleAhead, exampleBehind)
    (by simp) 7 held hheld
  rw [ht, Option.map_some, Option.some_inj] at hafter
  omega

end Hub

end Convers
