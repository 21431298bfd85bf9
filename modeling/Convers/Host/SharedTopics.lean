import Convers.Core.StoredTopics
import Convers.Host.Picture
import Convers.Host.Whereabouts

/-!
# The topics of a network

A topic that is set at one hub is told to all, with the second it was set in, and each hub keeps
the newest it knows. So every hub shows a topic that was set somewhere, or the one it started
with; when nothing is on its way it shows none older than any that was set; and if no two topics
are of the same second, all hubs show the same one (`Convers.Topology.newest_of_settled`).

A session that sets a topic does so when its hub holds no later one, and by a clock that is past
1970 (`Convers.Node.Dated`).
-/

namespace Convers

open HostCommand HostCommandCodec

namespace Hub

variable {h : Hub} {c : Int32}

/-- The topic a channel shows to the second. -/
def secondTopic (h : Hub) (c : Int32) : Option Topic := (h.heldTopic c).map Topic.toSecond

/-- Cutting to seconds keeps the order. -/
theorem age_toSecond_mono (s t : Topic) (hle : s.age ≤ t.age) :
    s.toSecond.age ≤ t.toSecond.age :=
  Nat.mul_le_mul_right _ (Nat.div_le_div_right hle)

/-- **A step keeps the newest to the second**, of the topics that are put forward. The wire has
whole seconds, so this is what two hubs can agree on. -/
theorem isNewest_secondTopic_step {input : Input} (hlater : h.SetsLater input)
    {values : List Topic} (hheld : Newest.IsNewest Topic.age values (h.secondTopic c)) :
    Newest.IsNewest Topic.age
      (values ++ (((h.offeredTopic input.1 input.2).bind (onChannel c)).map Topic.toSecond).toList)
      ((step h input).secondTopic c) := by
  obtain ⟨now, e⟩ := input
  rw [secondTopic, heldTopic_step]
  rcases hoffer : h.offeredTopic now e with _ | ⟨channel, topic⟩
  · simpa [secondTopic] using hheld
  · by_cases hc : c = channel
    swap
    · simpa [secondTopic, onChannel, hc, Ne.symm hc] using hheld
    subst hc
    simp only [Option.bind_some, onChannel, if_pos, Option.map_some, Option.toList_some]
    by_cases hlocal : e.isLocal = true
    · rw [if_pos hlocal]
      refine hheld.replace fun s hs => ?_
      obtain ⟨t, ht, rfl⟩ := Option.mem_map.mp hs
      exact age_toSecond_mono t topic (hlater hlocal c topic hoffer t ht)
    · rw [if_neg hlocal]
      exact hheld.offer_map age_toSecond_mono topic

end Hub

namespace HostCommand

/-- The topic that a command of the network puts forward for a channel. -/
def topicOn (c : Int32) : HostCommand → Option Hub.Topic
  | .hostTopic user host time channel text => (HostBridge.fromUnix time).toOption.bind
    fun timestamp => Hub.Announcement.topicOn c ⟨user, host, timestamp, channel, text⟩
  | _ => none

end HostCommand

/-- A moment from the wire is a whole second. -/
theorem HostBridge.wholeSeconds_of_fromUnix {seconds : Int64} {t : DateTimeOffset}
    (ht : fromUnix seconds = .ok t) : t.wholeSeconds = t := by
  rw [fromUnix, DateTimeOffset.fromUnixTimeSeconds] at ht
  split at ht
  · cases ht
    simp [DateTimeOffset.wholeSeconds]
  · cases ht

namespace Hub

variable {h : Hub} {c : Int32}

theorem topicOn_eq_none {command : HostCommand}
    (hevent : ∀ e, HostBridge.toEvent command ≠ .ok (some e)) : command.topicOn c = none := by
  cases command with
  | hostTopic user host time channel text =>
    rcases ht : HostBridge.fromUnix time with fault | t
    · rw [topicOn, ht]
      rfl
    · refine absurd ?_ (hevent (.hostTopic user host t channel text))
      rw [HostBridge.toEvent, ht]
      rfl
  | _ => rfl

/-- **What is put forward by a command** is what its event offers, a topic to the second. So what a
hub hears can be told from the words that came to it. -/
theorem map_offeredTopic (now : DateTimeOffset) {command : HostCommand} {e : ConversEvent}
    (hevent : HostBridge.toEvent command = .ok (some e)) :
    ((h.offeredTopic now e).bind (onChannel c)).map Topic.toSecond = command.topicOn c := by
  cases command with
  | hostTopic user host time channel text =>
    rcases ht : HostBridge.fromUnix time with fault | t
    · rw [HostBridge.toEvent, ht] at hevent
      cases hevent
    · rw [HostBridge.toEvent, ht] at hevent
      cases hevent
      rw [topicOn, ht, offeredTopic]
      simp only [Except.toOption, Option.bind_some, Announcement.topicOn]
      by_cases hvalid : ChannelNumber.isValid channel = true
      · by_cases hc : channel = c
        · subst hc
          simp [hvalid, onChannel, Topic.toSecond, HostBridge.wholeSeconds_of_fromUnix ht]
        · simp [hvalid, hc, onChannel]
      · simp [hvalid]
  | hostHandshake => cases hevent
  | hostUser user host timestamp | hostAway user host timestamp =>
    rcases ht : HostBridge.fromUnix timestamp with fault | t
    · rw [HostBridge.toEvent, ht] at hevent
      cases hevent
    · rw [HostBridge.toEvent, ht] at hevent
      cases hevent
      rfl
  | _ =>
    cases hevent
    rfl

/-- **A command that is heard** keeps the newest. A topic that is older than the one the hub has is
not taken. -/
theorem isNewest_heed (now : DateTimeOffset) (command : HostCommand) {values : List Topic}
    (hheld : Newest.IsNewest Topic.age values (h.secondTopic c)) :
    Newest.IsNewest Topic.age (values ++ (command.topicOn c).toList)
      ((h.heed now command).secondTopic c) := by
  rw [heed]
  split
  · rename_i e hevent
    rw [← map_offeredTopic now hevent (h := h)]
    refine isNewest_secondTopic_step (fun hlocal => ?_) hheld
    rw [(HostBridge.isLocal_of_toEvent hevent).1] at hlocal
    cases hlocal
  · rename_i hnone
    rw [topicOn_eq_none hnone, Option.toList_none, List.append_nil]
    exact hheld

/-- A topic that is announced past 1970. -/
theorem topicOn_hostTopic {now : DateTimeOffset} (hclock : 0 ≤ now.toUnixTimeSeconds)
    (user host : Text) (channel : Int32) (text : Text) :
    (HostCommand.hostTopic user host (HostBridge.toUnix now) channel text).topicOn c =
      Announcement.topicOn c ⟨user, host, now.wholeSeconds, channel, text⟩ := by
  rw [topicOn, HostBridge.fromUnix_toUnix_of_nonneg hclock]
  rfl

theorem topicOn_received (command : HostCommand) :
    command.received.topicOn c = command.topicOn c := by
  cases command with
  | _ => rfl

/-- Only the announcement of a topic puts one forward. -/
theorem topicOn_of_announcement {now : DateTimeOffset} {e : ConversEvent} {a : ConversAction}
    {command : HostCommand} (hann : h.announcement now e = some a)
    (hcommand : HostBridge.toHostCommand a = some command)
    (hother : ∀ sessionId topic, e ≠ .localSetTopic sessionId topic) :
    command.topicOn c = none := by
  cases e with
  | localSetTopic sessionId topic => exact absurd rfl (hother sessionId topic)
  | localJoin | localSetMode =>
    cases hann
    cases hcommand
    rfl
  | localSwitchChannel | localSay | localPrivateMessage | localSetPersonal | localSetAway
  | localInvite | localLeave =>
    obtain ⟨s, -, rfl⟩ := Option.map_eq_some_iff.mp hann
    cases hcommand
    rfl
  | _ => cases hann

/-- **What a session puts forward is said**, to the second. Another hub hears of it what this hub
has taken. -/
theorem topicOn_said (hsound : h.Sound) {now : DateTimeOffset} {e : ConversEvent}
    (hclock : 0 ≤ now.toUnixTimeSeconds) (hlocal : e.isLocal = true) :
    (((said now h e).bind HostBridge.toHostCommand).toList.map HostCommand.received).filterMap
        (topicOn c) =
      (((h.offeredTopic now e).bind (onChannel c)).map Topic.toSecond).toList := by
  have hquiet (hother : ∀ sessionId topic, e ≠ .localSetTopic sessionId topic) :
      (((said now h e).bind HostBridge.toHostCommand).toList.map HostCommand.received).filterMap
        (topicOn c) = [] := by
    refine List.filterMap_eq_nil_iff.mpr fun command hmem => ?_
    obtain ⟨command', hmem', rfl⟩ := List.mem_map.mp hmem
    obtain ⟨a, ha, hcommand⟩ := Option.bind_eq_some_iff.mp (Option.mem_toList.mp hmem')
    rw [topicOn_received]
    rw [said] at ha
    split at ha
    · exact topicOn_of_announcement ha hcommand hother
    · cases ha
  cases e with
  | localSetTopic sessionId topic =>
    rw [said, announces, announcement, offeredTopic]
    rcases hs : h.sessions.find? sessionId with _ | s
    · rfl
    · obtain rfl : s.id = sessionId := Table.key_of_find? hs
      have huser := hsound.sessions s hs
      have hname : Callsigns.normalize s.callsign = s.callsign := huser.name.1
      have hvalid : ChannelNumber.isValid s.channel = true := huser.channel
      dsimp only [Option.any_some, Option.map_some]
      by_cases hlocked : .topicLocked ∈ h.modesOf s.channel ∧ !s.isOperator
      · rw [if_pos hlocked, if_neg (by simpa using hlocked)]
        rfl
      · rw [if_neg hlocked, if_pos (by simpa [imp_iff_not_or] using hlocked)]
        by_cases hc : s.channel = c
        · subst hc
          simp [HostBridge.toHostCommand, received, topicOn_hostTopic hclock,
            Announcement.topicOn, onChannel, hvalid, hname, trim_trim, Topic.toSecond]
        · simp [HostBridge.toHostCommand, received, topicOn_hostTopic hclock,
            Announcement.topicOn, onChannel, hc]
  | _ =>
    refine (hquiet ?_).trans ?_
    · rintro _ _ ⟨⟩
    · first | rfl | cases hlocal

end Hub

namespace Node

variable {n : Node} {label : Label} {name : Text} {c : Int32}

/-- The clock is past 1970 when an event is dealt with, and no later topic is held than the one a
session sets. -/
def SetsInTime (n : Node) : Label → Prop
  | .drain now => 0 ≤ now.toUnixTimeSeconds ∧
    ∀ e ∈ n.advances (.drain now), n.hub.SetsLater (now, e)
  | _ => True

instance (n : Node) : (label : Label) → Decidable (n.SetsInTime label)
  | .drain now => inferInstanceAs (Decidable (0 ≤ now.toUnixTimeSeconds ∧
    ∀ e ∈ n.advances (.drain now), n.hub.SetsLater (now, e)))
  | .submit _ | .uplinkLine .. | .arrive .. | .uplinkTick _ | .peerTick .. | .read ..
  | .proceed _ | .connect _ | .uplinkLoss | .accept .. | .peerLoss _ =>
    inferInstanceAs (Decidable True)

/-- **A step whose words arrive**, and that sets a topic in time. -/
structure Dated (n : Node) (label : Label) : Prop where
  submits : Submits label
  arrives : ∀ c ∈ n.saidBy label, c.heardAs = [c.received]
  inTime : n.SetsInTime label

instance (n : Node) (label : Label) : Decidable (n.Dated label) :=
  decidable_of_iff (Submits label ∧ (∀ c ∈ n.saidBy label, c.heardAs = [c.received]) ∧
      n.SetsInTime label)
    ⟨fun ⟨h1, h2, h3⟩ => ⟨h1, h2, h3⟩, fun ⟨h1, h2, h3⟩ => ⟨h1, h2, h3⟩⟩

/-- **A step keeps the newest topic** of those its entries put forward. It is one lemma for sessions
and for peers, as both put a topic forward. -/
theorem Up.isNewest_step (hup : n.Up) (hmild : n.Mild label) (hr : n.Rostered name)
    (hdated : n.Dated label) {values : List Hub.Topic}
    (hheld : Newest.IsNewest Hub.Topic.age values (n.hub.secondTopic c)) :
    Newest.IsNewest Hub.Topic.age
      (values ++ ((n.entries label).map Prod.snd).filterMap (topicOn c))
      ((n.step label).hub.secondTopic c) := by
  rw [Node.entries]
  rcases hup.hub_cases hmild with ⟨origin, command, now, hhandled, hhub, -⟩ |
    ⟨event, now, rfl, hhandled, hmem, hhub, hadvances, hsaid⟩ | ⟨hhandled, hsaid, hhub⟩
  · rw [hhandled, hhub]
    have hnext := Hub.isNewest_heed now command hheld
    rcases htopic : command.topicOn c with _ | t
    · rw [htopic] at hnext
      simpa [htopic] using hnext
    · rw [htopic] at hnext
      simpa [htopic] using hnext
  · rw [hhandled, hhub]
    dsimp only
    rw [List.map_map, heardAs_saidBy hdated.arrives, hsaid, Function.comp_def, List.map_id',
      Hub.topicOn_said hr.sound hdated.inTime.1 (hup.events event hmem)]
    exact Hub.isNewest_secondTopic_step (hdated.inTime.2 event hadvances) hheld
  · rw [hhandled, hsaid, hhub]
    simpa using hheld

end Node

namespace Topology

variable {V : Type*} [DecidableEq V] {T : Topology V} {start : Network V}
  {acts : List (Network.Act V)} {name : V → Text} {c : Int32} {x : V}

/-- **A step of the network that is mild and dated.** -/
def Dated (T : Topology V) (net : Network V) (act : Network.Act V) : Prop :=
  net.Mild act ∧ ∀ q ∈ T.turn net act, (net.hub q.1).Dated q.2

instance (T : Topology V) (net : Network V) (act : Network.Act V) : Decidable (T.Dated net act) :=
  inferInstanceAs (Decidable (_ ∧ ∀ q ∈ T.turn net act, (net.hub q.1).Dated q.2))

/-- The topic a hub shows on a channel, to the second. -/
def topic (c : Int32) (net : Network V) (x : V) : Option Hub.Topic := (net.hub x).hub.secondTopic c

/-- The topics for a channel that a hub says over a run. -/
def topics (T : Topology V) (c : Int32) (start : Network V) (acts : List (Network.Act V)) (x : V) :
    List Hub.Topic :=
  (T.said start acts x).filterMap (topicOn c)

/-- The topics of a run: the one of the start, and those that are said. -/
def inPlay (T : Topology V) (c : Int32) (first : Option Hub.Topic) (start : Network V)
    (acts : List (Network.Act V)) : Set Hub.Topic :=
  {t | t ∈ first ∨ ∃ y, t ∈ T.topics c start acts y}

/-- **A step of the network keeps the newest topic** at each hub. Only the hub that acts deals with
a word; the others are as they were. -/
theorem Settled.isNewest_step {net : Network V} {act : Network.Act V} (h : T.Settled name net)
    (hdated : T.Dated net act) {values : List Hub.Topic}
    (hheld : Newest.IsNewest Hub.Topic.age values (topic c net x)) :
    Newest.IsNewest Hub.Topic.age
      (values ++ ((T.entries x net act).map Prod.snd).filterMap (topicOn c))
      (topic c (T.perform net act) x) := by
  rw [topic, entries]
  rcases hturn : T.turn net act with _ | ⟨z, label⟩
  · rw [perform, hturn]
    simpa [topic] using hheld
  · rw [hub_perform hturn]
    dsimp only
    by_cases hz : z = x
    · subst hz
      rw [if_pos rfl, if_pos rfl]
      exact (h.linked.up z).isNewest_step (h.linked.mild hdated.1 hturn) (h.rostered z)
        (hdated.2 _ hturn) hheld
    · rw [if_neg hz, if_neg (Ne.symm hz)]
      simpa [topic] using hheld

section Runs

variable (hstart : T.Settled name start)
  (hdated : ∀ p ∈ Run.trace T.perform start acts, T.Dated p.1 p.2)

include hstart hdated

/-- **A hub holds the newest topic** that it has dealt with. In which order they came to it does not
matter. -/
theorem isNewest_dealtWith (x : V) :
    Newest.IsNewest Hub.Topic.age
      ((topic c start x).toList ++ (T.dealtWith start acts x).filterMap (topicOn c))
      (topic c (Run.final T.perform start acts) x) := by
  have hsettled := (Run.invariant hstart acts fun p hp h =>
    h.step (hdated p hp).1 fun q hq => ((hdated p hp).2 q hq).submits).1
  induction acts using List.reverseRecOn with
  | nil =>
    rw [dealtWith, log, Run.trace_nil, List.flatMap_nil, List.map_nil, List.filterMap_nil,
      List.append_nil]
    exact Newest.isNewest_toList _
  | append_singleton acts act ih =>
    rw [Run.trace_append] at hdated hsettled
    have hbefore := ih (fun p hp => hdated p (List.mem_append_left _ hp))
      fun p hp => hsettled p (List.mem_append_left _ hp)
    have hlast : (Run.final T.perform start acts, act) ∈ Run.trace T.perform start acts ++
        Run.trace T.perform (Run.final T.perform start acts) [act] :=
      List.mem_append_right _ List.mem_cons_self
    have hnext := (hsettled _ hlast).isNewest_step (hdated _ hlast) hbefore
    rw [dealtWith, log, Run.trace_append, List.flatMap_append, List.map_append,
      List.filterMap_append, Run.final_append, ← List.append_assoc]
    simpa [dealtWith, log] using hnext

end Runs

/-- **All hubs come to the newest topic.** The hubs are linked in a tree, show one topic, and
nothing is on its way; no link is lost, the words arrive, and a session sets a topic when its hub
holds no later one. Then, however the turns fall, a hub shows a topic of the run; when nothing is
on its way it shows none older than any; and then all show the same one, if no second has two. -/
theorem newest_of_settled [Finite V] (hstart : T.Settled name start)
    (hdated : ∀ p ∈ Run.trace T.perform start acts, T.Dated p.1 p.2) (htree : T.graph.IsTree)
    (hstill : T.Still start) {first : Option Hub.Topic} (hfirst : ∀ y, topic c start y = first)
    (x : V) :
    (∀ t ∈ topic c (Run.final T.perform start acts) x, t ∈ T.inPlay c first start acts) ∧
      (T.Still (Run.final T.perform start acts) →
        (∀ t ∈ T.inPlay c first start acts,
            ∃ held ∈ topic c (Run.final T.perform start acts) x, t.age ≤ held.age) ∧
          (Set.InjOn Hub.Topic.age (T.inPlay c first start acts) →
            ∀ y, topic c (Run.final T.perform start acts) y =
              topic c (Run.final T.perform start acts) x)) := by
  have hmild : ∀ p ∈ Run.trace T.perform start acts, p.1.Mild p.2 := fun p hp => (hdated p hp).1
  have hnewest (y : V) := isNewest_dealtWith (c := c) hstart hdated y
  -- what a hub deals with are topics of the run
  have hmem (y : V) : ∀ t ∈ (topic c start y).toList ++
      (T.dealtWith start acts y).filterMap (topicOn c), t ∈ T.inPlay c first start acts := by
    obtain ⟨parts, hall, -, hparts, -⟩ := interleaves_run htree hstart.linked hstill hmild y
    intro t ht
    rcases List.mem_append.mp ht with ht | ht
    · exact Or.inl (hfirst y ▸ Option.mem_toList.mp ht)
    · obtain ⟨command, hcommand, htopic⟩ := List.mem_filterMap.mp ht
      obtain ⟨z, hz⟩ := hall.mem_iff.mp hcommand
      exact Or.inr ⟨z, List.mem_filterMap.mpr ⟨command, (hparts z).subset hz, htopic⟩⟩
  refine ⟨fun t ht => hmem x t ((hnewest x).1 t ht), fun hend => ?_⟩
  -- and they are all of them when nothing is on its way
  have hsame (y : V) : ∀ t, t ∈ (topic c start y).toList ++
      (T.dealtWith start acts y).filterMap (topicOn c) ↔ t ∈ T.inPlay c first start acts := by
    obtain ⟨parts, hall, -, -, hdone⟩ := interleaves_run htree hstart.linked hstill hmild y
    refine fun t => ⟨hmem y t, fun ht => List.mem_append.mpr ?_⟩
    rcases ht with ht | ⟨z, hz⟩
    · exact Or.inl (Option.mem_toList.mpr ((hfirst y).symm ▸ ht))
    · obtain ⟨command, hcommand, htopic⟩ := List.mem_filterMap.mp hz
      rw [← hdone hend] at hcommand
      exact Or.inr (List.mem_filterMap.mpr ⟨command, hall.mem_iff.mpr ⟨z, hcommand⟩, htopic⟩)
  refine ⟨fun t ht => (hnewest x).2 t ((hsame x t).mpr ht), fun hinj y => ?_⟩
  refine (hnewest y).unique (hnewest x) (fun t => (hsame y t).trans (hsame x t).symm) ?_
  exact fun s hs t ht => hinj ((hsame y s).mp hs) ((hsame y t).mp ht)

/-- The user of the east sets a topic, and the west hears of that too. -/
def exampleTopic : List (Network.Act (Fin 3)) :=
  exampleWord ++
    [.work exampleEast (.submit (.localSetTopic "rf-1".toList "net night".toList)),
      .work exampleEast (.drain Hub.exampleMoment),
      .deliver exampleEast exampleMiddle Hub.exampleMoment,
      .work exampleMiddle (.read Hub.exampleMoment (Node.peerIdOf 1)),
      .work exampleMiddle (.drain Hub.exampleMoment),
      .deliver exampleMiddle exampleWest Hub.exampleMoment]

/-- The west comes to the topic of the east. -/
theorem newest_exampleTopic :
    (∀ t ∈ topic 7 (Run.final exampleStar.perform exampleNetwork exampleTopic) 2,
        t ∈ exampleStar.inPlay 7 none exampleNetwork exampleTopic) ∧
      (exampleStar.Still (Run.final exampleStar.perform exampleNetwork exampleTopic) →
        (∀ t ∈ exampleStar.inPlay 7 none exampleNetwork exampleTopic,
            ∃ held ∈ topic 7 (Run.final exampleStar.perform exampleNetwork exampleTopic) 2,
              t.age ≤ held.age) ∧
          (Set.InjOn Hub.Topic.age (exampleStar.inPlay 7 none exampleNetwork exampleTopic) →
            ∀ y, topic 7 (Run.final exampleStar.perform exampleNetwork exampleTopic) y =
              topic 7 (Run.final exampleStar.perform exampleNetwork exampleTopic) 2)) := by
  refine newest_of_settled settled_exampleNetwork ?_ isTree_exampleStar ?_ ?_ 2
  · decide +kernel
  · decide +kernel
  · decide +kernel

end Topology

end Convers
