import Convers.Core.Topics

/-!
# Topics in the store

A topic that the hub takes is written through to the store, so that a restart finds it. Hub
and store decide each by itself which topic is the newer one, and not in the same way: the
hub compares moments, and takes one that is set here in any case; the store compares whole
seconds, and keeps what it has when they are equal. `Convers.Hub.TopicsKept` is that they come
to the same, and `Convers.Hub.SetsStored` when a step leaves it so; a run is right in every
state exactly when all its steps are of that kind (`Convers.Hub.topicsKept_iff`).
-/

namespace Convers

namespace Hub

/-- A topic with its time in whole seconds. -/
def Topic.toSecond (t : Topic) : Topic := { t with setAt := t.setAt.wholeSeconds }

/-- The topic of a row of the store. -/
def topicOfRow (row : StoredTopic) : Topic := ⟨row.topic, row.setBy, row.setAt⟩

/-- The row that is written for a topic. -/
def Topic.row (channel : Int32) (t : Topic) : StoredTopic := ⟨channel, t.text, t.setBy, t.setAt⟩

/-- The topic the store has for a channel. -/
def storedTopic (h : Hub) (c : Int32) : Option Topic :=
  (h.store.bind (·.topics.find? c)).map topicOfRow

/-- Two hubs' topics, to the second. -/
def SameTopics (held held' : Int32 → Option Topic) : Prop :=
  ∀ c, (held c).map Topic.toSecond = (held' c).map Topic.toSecond

/-- **The topics of a hub are kept.** -/
structure TopicsKept (h : Hub) : Prop where
  /-- The store has the topics the hub holds, -/
  stored : SameTopics h.storedTopic h.heldTopic
  /-- and so has a new hub that reads it. -/
  restored : ∀ hostName h', Hub.new hostName h.store = .ok h' →
    SameTopics h'.heldTopic h.heldTopic

/-- The topic an event has the hub take, with its channel. -/
def takenTopic (h : Hub) (now : DateTimeOffset) (e : ConversEvent) : Option (Int32 × Topic) :=
  match h.offeredTopic now e with
  | some (channel, topic) =>
    if !e.isLocal && (h.heldTopic channel).any (topic.age < ·.age) then none
    else some (channel, topic)
  | none => none

/-- **The condition**: the topic that is taken is later, in whole seconds, than the one stored, or
it is that one. -/
def SetsStored (h : Hub) (input : Input) : Prop :=
  ∀ channel topic, h.takenTopic input.1 input.2 = some (channel, topic) →
    ∀ stored ∈ h.storedTopic channel,
      stored.age < topic.toSecond.age ∨ stored.toSecond = topic.toSecond

@[simp] theorem Topic.toSecond_toSecond (t : Topic) : t.toSecond.toSecond = t.toSecond := by
  rcases t with ⟨text, setBy, ⟨ticks, hle⟩⟩
  simp [Topic.toSecond, DateTimeOffset.wholeSeconds]

instance (h : Hub) (input : Input) : Decidable (h.SetsStored input) :=
  decidable_of_iff (∀ p ∈ h.takenTopic input.1 input.2, ∀ stored ∈ h.storedTopic p.1,
      stored.age < p.2.toSecond.age ∨ stored.toSecond = p.2.toSecond)
    ⟨fun hall channel topic => hall (channel, topic), fun hsets p => hsets p.1 p.2⟩

/-- What is put into the register of the store is what a reader finds there. -/
theorem map_keep_toSecond_iff (held : Option Topic) (t : Topic) :
    (Newest.keep Topic.age held t.toSecond).map Topic.toSecond = some t.toSecond ↔
      ∀ stored ∈ held, stored.age < t.toSecond.age ∨ stored.toSecond = t.toSecond := by
  have hput := @Newest.map_keep_eq_iff _ _ _ Topic.age _ Topic.toSecond held t.toSecond
  rwa [Topic.toSecond_toSecond] at hput

/-! ### What a step does to the store -/

section Steps

variable {h : Hub} (now : DateTimeOffset) (c : Int32)

/-- **What a step does to the topics of the hub**: it takes one, or none. The topic is named here
once for the hub and for its store. -/
theorem heldTopic_of_takenTopic (e : ConversEvent) :
    (step h (now, e)).heldTopic c =
      match h.takenTopic now e with
      | some (channel, topic) => if c = channel then some topic else h.heldTopic c
      | none => h.heldTopic c := by
  rw [heldTopic_step, takenTopic]
  rcases h.offeredTopic now e with _ | ⟨channel, topic⟩
  · rfl
  · dsimp only
    by_cases hc : c = channel
    swap
    · rw [if_neg hc]
      split
      · rename_i heq
        split at heq
        · cases heq
        · cases heq
          exact (if_neg hc).symm
      · rfl
    subst hc
    rw [if_pos rfl]
    rcases e.isLocal with _ | _
    · rw [if_neg Bool.false_ne_true, Newest.offer, Bool.not_false, Bool.true_and]
      by_cases hnewer : (h.heldTopic c).any (fun t => topic.age < t.age) = true
      · rw [if_pos hnewer, if_pos hnewer]
      · rw [if_neg hnewer, if_neg hnewer]
        exact (if_pos rfl).symm
    · simp

/-- Who set a topic that is taken is named in canonical form. -/
theorem normalize_setBy_of_takenTopic (hc : h.Canonical) {e : ConversEvent} {channel : Int32}
    {t : Topic} (htaken : h.takenTopic now e = some (channel, t)) :
    Callsigns.normalize t.setBy = t.setBy := by
  have hoffer : h.offeredTopic now e = some (channel, t) := by
    rw [takenTopic] at htaken
    split at htaken
    · split at htaken
      · cases htaken
      · cases htaken
        assumption
    · cases htaken
  cases e with
  | localSetTopic sessionId topic =>
    rw [offeredTopic] at hoffer
    split at hoffer
    · rename_i s hs
      split at hoffer
      · cases hoffer
      · cases hoffer
        exact hc s (attached_of_find? hs)
    · cases hoffer
  | hostTopic user host timestamp channel text =>
    rw [offeredTopic] at hoffer
    split at hoffer
    · cases hoffer
      exact Callsigns.normalize_normalize user
    · cases hoffer
  | _ => cases hoffer

/-- **A topic that is written** is put into the register of the store. The register of the store
compares whole seconds, that of the hub compares ticks. -/
theorem find?_upsertTopic (s : ConversStore) (channel : Int32) (t : Topic)
    (hsetBy : Callsigns.normalize t.setBy = t.setBy) :
    ((s.upsertTopic (t.row channel)).topics.find? c).map topicOfRow =
      if c = channel then
        Newest.keep Topic.age ((s.topics.find? channel).map topicOfRow) t.toSecond
      else (s.topics.find? c).map topicOfRow := by
  have hput : ((s.topics.put ⟨channel, t.text, t.setBy, t.setAt.wholeSeconds⟩).find? c).map
      topicOfRow = if c = channel then some t.toSecond else (s.topics.find? c).map topicOfRow := by
    rw [Table.find?_put]
    by_cases hc : c = channel
    · rw [if_pos hc, if_pos hc]
      rfl
    · rw [if_neg hc, if_neg hc]
  simp only [ConversStore.upsertTopic, Topic.row, hsetBy]
  rcases hrow : s.topics.find? channel with _ | row
  · simpa [Newest.keep] using hput
  · dsimp only
    rw [Option.map_some, Newest.keep, Option.any_some]
    by_cases hle : row.setAt.ticks ≥ t.setAt.wholeSeconds.ticks
    · have hage : t.toSecond.age ≤ (topicOfRow row).age := hle
      rw [if_pos hle, if_pos (decide_eq_true hage)]
      by_cases hc : c = channel
      · rw [if_pos hc, hc, hrow, Option.map_some]
      · rw [if_neg hc]
    · have hage : ¬t.toSecond.age ≤ (topicOfRow row).age := hle
      have hany : ¬decide (t.toSecond.age ≤ (topicOfRow row).age) = true := by simpa using hage
      rw [if_neg hle, if_neg hany]
      exact hput

/-- The guard of `HostTopic`, on the topic that is held. -/
theorem newer_eq (timestamp : DateTimeOffset) :
    ((h.channels.get? c).bind ChannelState.topicSetAt).any (·.ticks > timestamp.ticks) =
      (h.heldTopic c).any (timestamp.ticks < ·.age) := by
  rw [heldTopic]
  rcases h.channels.get? c with _ | state
  · rfl
  · rcases hat : state.topicSetAt with _ | setAt
    · simp [hat]
    · simp only [hat, Option.bind_some, Option.any_some, Option.map_some, Topic.age]
      exact decide_eq_decide.mpr gt_iff_lt

theorem store_grantOperator (call : Text) (channel : Int32) (grant : Bool) :
    (h.grantOperator call channel grant).store = h.store := by
  rw [grantOperator, refreshSessionOpFlags, foldl_refreshSession, applyOperator]
  repeat' split
  all_goals rfl

theorem store_recordInvite (callsign : Text) (channel : Int32) :
    (h.recordInvite callsign channel).store = h.store := by
  rw [recordInvite_eq]
  rfl

/-- A profile is written beside the topics. -/
theorem topics_persistProfile {h' : Hub} {s : LocalSession}
    (hkept : h.persistProfile now s = .ok h') :
    h'.store.map ConversStore.topics = h.store.map ConversStore.topics := by
  rw [persistProfile] at hkept
  rcases hstore : h.store with _ | store
  · rw [hstore] at hkept
    cases hkept
    rw [hstore]
  · simp only [hstore, ConversStore.upsertProfile] at hkept
    split at hkept
    · cases hkept
    · cases hkept
      rfl

theorem topics_localSetPersonal (sessionId personal : Text) :
    (h.localSetPersonal now sessionId personal).hub.store.map ConversStore.topics =
      h.store.map ConversStore.topics := by
  rw [localSetPersonal]
  split
  · rfl
  · dsimp only
    split
    · rfl
    · rename_i hkept
      have htopics := topics_persistProfile now hkept
      exact htopics

/-- **What a step does to the topics of the store**: the one that is taken is written. So the store
is written to where the hub takes a topic, and at no other event. -/
theorem topics_step (h : Hub) (e : ConversEvent) :
    (step h (now, e)).store.map ConversStore.topics =
      match h.takenTopic now e with
      | some (channel, t) => h.store.map fun s => (s.upsertTopic (t.row channel)).topics
      | none => h.store.map ConversStore.topics := by
  cases e with
  | localSetTopic sessionId topic =>
    simp only [step, advance, localSetTopic, takenTopic, offeredTopic]
    rcases h.sessions.find? sessionId with _ | session
    · rfl
    · dsimp only
      by_cases hlocked : .topicLocked ∈ h.modesOf session.channel ∧ (!session.isOperator) = true
      · rw [if_pos hlocked, if_pos hlocked]
        rfl
      · rw [if_neg hlocked, if_neg hlocked]
        exact Option.map_map _ _ _
  | hostTopic user host timestamp channel text =>
    simp only [step, advance, hostTopic, takenTopic, offeredTopic]
    by_cases hvalid : ChannelNumber.isValid channel = true
    swap
    · simp [hvalid, ignore]
    rw [hvalid]
    simp only [Bool.not_true, Bool.false_eq_true, if_false, if_true, ConversEvent.isLocal,
      Bool.not_false, Bool.true_and]
    -- the hub compares times, the topics their ages, which is the same
    have hguard : ((h.channels.get? channel).bind ChannelState.topicSetAt).any
        (·.ticks > timestamp.ticks) = (h.heldTopic channel).any fun t =>
          (⟨trim text, Callsigns.normalize user, timestamp⟩ : Topic).age < t.age :=
      newer_eq channel timestamp
    rw [hguard]
    split
    · rfl
    · exact Option.map_map _ _ _
  | localSetPersonal sessionId personal => exact topics_localSetPersonal now sessionId personal
  | localInvite sessionId toUser channel =>
    refine congrArg (Option.map ConversStore.topics) ?_
    simp only [step, advance, localInvite]
    repeat' split
    all_goals first | rfl | exact store_recordInvite _ _
  | hostInvite source user channel =>
    refine congrArg (Option.map ConversStore.topics) ?_
    simp only [step, advance, hostInvite]
    repeat' split
    all_goals first | rfl | exact store_recordInvite _ _
  | localSetOperator sessionId channel grant =>
    refine congrArg (Option.map ConversStore.topics) ?_
    simp only [step, advance, localSetOperator]
    repeat' split
    all_goals first | rfl | exact store_grantOperator _ _ _
  | hostOper user host channel grant =>
    refine congrArg (Option.map ConversStore.topics) ?_
    simp only [step, advance, hostOper]
    repeat' split
    all_goals first | rfl | exact store_grantOperator _ _ _
  | _ =>
    refine congrArg (Option.map ConversStore.topics) ?_
    simp only [step, advance, localJoin, localSwitchChannel, localSay, localPrivateMessage,
      localSetAway, localLeave, localSetMode, hostUser, hostChannelMessage, hostPrivateMessage,
      hostPersonal, hostAway, hostMode]
    repeat' split
    all_goals rfl

/-- **The topics of the store after a step**: the one taken was put into its register. It is put in
with the guard of the store, which the hub has not asked. -/
theorem storedTopic_step (hc : h.Canonical) (hstore : h.store.isSome = true) (e : ConversEvent) :
    (step h (now, e)).storedTopic c =
      match h.takenTopic now e with
      | some (channel, t) =>
        if c = channel then Newest.keep Topic.age (h.storedTopic channel) t.toSecond
        else h.storedTopic c
      | none => h.storedTopic c := by
  have hread : ∀ h' : Hub, h'.storedTopic c =
      ((h'.store.map ConversStore.topics).bind (·.find? c)).map topicOfRow := by
    intro h'
    rw [storedTopic, Option.bind_map]
    rfl
  rw [hread, topics_step]
  rcases htaken : h.takenTopic now e with _ | ⟨channel, t⟩
  · exact (hread h).symm
  · obtain ⟨s, hs⟩ := Option.isSome_iff_exists.mp hstore
    simp only [hs, Option.map_some, Option.bind_some, storedTopic]
    exact find?_upsertTopic c s channel t (normalize_setBy_of_takenTopic now hc htaken)

theorem isSome_store_step (hstore : h.store.isSome = true) (e : ConversEvent) :
    (step h (now, e)).store.isSome = true := by
  have hmap := congrArg Option.isSome (topics_step now h e)
  rw [Option.isSome_map] at hmap
  rw [hmap]
  split
  · rw [Option.isSome_map, hstore]
  · rw [Option.isSome_map, hstore]

end Steps

/-! ### Along a run -/

theorem store_new {hostName : Text} {store : Option ConversStore} {h : Hub}
    (hnew : new hostName store = .ok h) : h.store = store := by
  unfold new at hnew
  split at hnew
  · cases hnew
  · cases hnew
    rfl

/-- A new hub holds the topics of its store. -/
theorem heldTopic_new {hostName : Text} {store : Option ConversStore} {h : Hub}
    (hnew : new hostName store = .ok h) (c : Int32) : h.heldTopic c = h.storedTopic c := by
  rw [heldTopic, get?_channels_of_new hnew, storedTopic, store_new hnew]
  rcases store.bind (·.topics.find? c) with _ | row
  · rfl
  · rfl

/-- A restart finds what is stored, so only that has to be looked at. -/
theorem topicsKept_iff_stored {h : Hub} :
    h.TopicsKept ↔ SameTopics h.storedTopic h.heldTopic := by
  refine ⟨TopicsKept.stored, fun hstored => ⟨hstored, fun hostName h' hnew c => ?_⟩⟩
  have hread : h'.storedTopic c = h.storedTopic c := by
    rw [storedTopic, store_new hnew, storedTopic]
  rw [heldTopic_new hnew, hread]
  exact hstored c

/-- What every state of a run has: canonical callsigns and a store. -/
structure Writes (h : Hub) : Prop where
  canonical : h.Canonical
  isSome_store : h.store.isSome = true

/-- A hub that reads its store starts so. -/
theorem Writes.of_new {hostName : Text} {store : ConversStore} {h : Hub}
    (hnew : new hostName (some store) = .ok h) : h.Writes where
  canonical s hs := absurd hs (not_attached_of_new hnew s)
  isSome_store := by rw [store_new hnew]; rfl

theorem Writes.step {h : Hub} (hw : h.Writes) (input : Input) : (step h input).Writes where
  canonical := hw.canonical.step input.1 input.2
  isSome_store := isSome_store_step input.1 hw.isSome_store input.2

/-- **A step keeps the topics iff it meets the condition.** The run is an equivalence because each
of its steps is one. -/
theorem topicsKept_step_iff {h : Hub} (hw : h.Writes) (hkept : h.TopicsKept) (input : Input) :
    (Hub.step h input).TopicsKept ↔ h.SetsStored input := by
  obtain ⟨now, e⟩ := input
  rw [topicsKept_iff_stored]
  have hstored := fun c => storedTopic_step now c hw.canonical hw.isSome_store e
  constructor
  · intro hsame channel t htaken
    have hc := hsame channel
    rw [hstored, heldTopic_of_takenTopic, show h.takenTopic now e = some (channel, t) from htaken]
      at hc
    simp only [if_true, Option.map_some] at hc
    exact (map_keep_toSecond_iff _ t).mp hc
  · intro hsets c
    rw [hstored, heldTopic_of_takenTopic]
    rcases htaken : h.takenTopic now e with _ | ⟨channel, t⟩
    · exact hkept.stored c
    · dsimp only
      by_cases hc : c = channel
      · rw [if_pos hc, if_pos hc, Option.map_some]
        exact (map_keep_toSecond_iff _ t).mpr (hsets channel t htaken)
      · rw [if_neg hc, if_neg hc]
        exact hkept.stored c

/-- **The topics of a hub are kept all along a run iff every topic that is taken in it is later, to
the second, than the one stored.** -/
theorem topicsKept_iff {hostName : Text} {store : ConversStore} {start : Hub}
    (hnew : new hostName (some store) = .ok start) (inputs : List Input) :
    ((∀ p ∈ Run.trace step start inputs, p.1.TopicsKept) ∧
        (Run.final step start inputs).TopicsKept) ↔
      ∀ p ∈ Run.trace step start inputs, p.1.SetsStored p.2 := by
  have hwrites := Run.invariant (Writes.of_new hnew) inputs fun p _ hw => hw.step p.2
  constructor
  · rintro ⟨hall, hfinal⟩ p hp
    have hafter := Run.forall_step hall hfinal p hp
    exact (topicsKept_step_iff (hwrites.1 p hp) (hall p hp) p.2).mp hafter
  · intro hsets
    have hstart : start.TopicsKept :=
      topicsKept_iff_stored.mpr fun c => congrArg _ (heldTopic_new hnew c).symm
    exact Run.invariant hstart inputs fun p hp hkept =>
      (topicsKept_step_iff (hwrites.1 p hp) hkept p.2).mpr (hsets p hp)

/-- A hub with an empty store behind it. -/
def exampleStored : Hub := { fresh "NODE".toList with store := some ⟨Table.empty, Table.empty⟩ }

theorem new_exampleStored :
    new "NODE".toList (some ⟨Table.empty, Table.empty⟩) = .ok exampleStored := rfl

/-- A session that sets two topics, one second in and at a given moment. -/
def exampleTopics (later : DateTimeOffset) : List Input :=
  [(⟨0, zero_ticks_le⟩, .localJoin "web-1".toList "m0abc".toList 7),
    (⟨10000000, second_ticks_le⟩, .localSetTopic "web-1".toList "first".toList),
    (later, .localSetTopic "web-1".toList "second".toList)]

/-- The second topic a second after the first. -/
theorem topicsKept_exampleTopics :
    (∀ p ∈ Run.trace step exampleStored (exampleTopics ⟨20000000, by omega⟩), p.1.TopicsKept) ∧
      (Run.final step exampleStored (exampleTopics ⟨20000000, by omega⟩)).TopicsKept :=
  (topicsKept_iff new_exampleStored (exampleTopics ⟨20000000, by omega⟩)).mpr
    (by decide +kernel)

/-- **Of two topics set in one second the hub holds the second, the store the first.** The store has
whole seconds, and a later topic has to be later by one. -/
theorem not_topicsKept_exampleTopics :
    ¬(Run.final step exampleStored (exampleTopics ⟨15000000, by omega⟩)).TopicsKept := by
  intro hkept
  have hstored : ((Run.final step exampleStored
      (exampleTopics ⟨15000000, by omega⟩)).storedTopic 7).map Topic.text =
        some "first".toList := by
    decide +kernel
  have hheld : ((Run.final step exampleStored
      (exampleTopics ⟨15000000, by omega⟩)).heldTopic 7).map Topic.text =
        some "second".toList := by
    decide +kernel
  have hsame := congrArg (Option.map Topic.text) (hkept.stored 7)
  rw [Option.map_map, Option.map_map] at hsame
  exact absurd (hstored.symm.trans (hsame.trans hheld)) (by decide)

end Hub

end Convers
