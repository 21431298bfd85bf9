import Convers.Host.Network
import Convers.Host.Rebuild

/-!
# Where everybody is

Each hub of a network keeps a table of the users of all hubs, from what it hears. In a network
that loses no link every table follows the words of the user's own hub, and them alone: a table
shows a user where his hub had him at one time, and no hub shows him on a channel he never was on.
When nothing is on its way, all the tables show him where he is
(`Convers.Topology.agree_of_settled`).

The words of a hub have to arrive as they are, and an entry that is stored anew has to be from a
session on the channel the table shows (`Convers.Topology.Plain`).
-/

namespace Convers

open HostCommand HostCommandCodec

namespace HostCommand

/-- What is filled in on the way puts a user nowhere else. -/
theorem places_received (c : HostCommand) (k : Text × Text) : c.received.places k = c.places k := by
  cases c with
  | hostUser user host timestamp fromChannel toChannel text isObserver =>
    rw [received, places, places, HostBridge.toEvent, HostBridge.toEvent]
    rcases HostBridge.fromUnix timestamp with fault | t
    · rfl
    · rfl
  | hostUserData user host text => rfl
  | hostHandshake hostname software facilities => rfl
  | _ => rfl

theorem placedBy_map_received (commands : List HostCommand) (k : Text × Text)
    (channel : Option Int32) :
    placedBy k (commands.map received) channel = placedBy k commands channel := by
  induction commands generalizing channel with
  | nil => rfl
  | cons c commands ih =>
    rw [List.map_cons, placedBy, List.foldl_cons, places_received]
    exact ih _

end HostCommand

namespace Hub

variable {h : Hub}

/-- What is announced of a user's channel is announced of one of our own. -/
theorem host_of_announcement {now : DateTimeOffset} {e : ConversEvent} {user host : Text}
    {timestamp : DateTimeOffset} {fromChannel toChannel : Int32} {personal : Text}
    (hann : h.announcement now e =
      some (.sendUser user host timestamp fromChannel toChannel personal)) :
    host = h.hostName := by
  cases e with
  | localJoin sessionId callsign channel =>
    cases hann
    rfl
  | localSetMode => cases hann
  | localSwitchChannel | localSay | localPrivateMessage | localSetPersonal | localSetAway
  | localSetTopic | localInvite | localLeave =>
    obtain ⟨s, -, hs⟩ := Option.map_eq_some_iff.mp hann
    cases hs <;> rfl
  | _ => cases hann

/-- **A hub speaks of its own users only.** Nobody else so says where a user of ours is. -/
theorem places_of_said {now : DateTimeOffset} {e : ConversEvent} {a : ConversAction}
    {c : HostCommand} {k : Text × Text} (ha : said now h e = some a)
    (hc : HostBridge.toHostCommand a = some c) (hplaces : (c.places k).isSome = true) :
    k.2 = Callsigns.normalize h.hostName := by
  have hann : h.announcement now e = some a := by
    rw [said] at ha
    split at ha
    · exact ha
    · cases ha
  rw [places] at hplaces
  cases a with
  | sendUser user host timestamp fromChannel toChannel personal =>
    cases hc
    obtain ⟨t, ht⟩ := HostBridge.fromUnix_toUnix timestamp
    rw [HostBridge.toEvent, ht] at hplaces
    dsimp only [bind, Except.bind] at hplaces
    split at hplaces
    · rename_i hk
      rw [hk.1, host_of_announcement hann]
    · cases hplaces
  | sendAway user host timestamp text =>
    cases hc
    obtain ⟨t, ht⟩ := HostBridge.fromUnix_toUnix timestamp
    rw [HostBridge.toEvent, ht] at hplaces
    cases hplaces
  | sendTopic user host timestamp channel text =>
    cases hc
    obtain ⟨t, ht⟩ := HostBridge.fromUnix_toUnix timestamp
    rw [HostBridge.toEvent, ht] at hplaces
    cases hplaces
  | sendChannelMessage | sendPrivateMessage | sendPersonal | sendInvite | sendMode | sendPong =>
    cases hc
    cases hplaces
  | _ => cases hc

end Hub

namespace Node

variable {n : Node} {label : Label}

/-- A line without content leaves the hub of an established link as it is. -/
theorem hub_receiveLine_of_none {links : HostLink.Links} {now : DateTimeOffset}
    {e : HostLinkEngine} {hub : Hub} {line : Text} (hcontent : PeerRelay.contentOf line = none) :
    (HostLink.receiveLine links now e hub line).2.1 = hub := by
  rcases hread : e.onLineReceived now line with fault | ⟨engine, step⟩
  · rw [HostLink.receiveLine, hread]
  · exact (HostLink.receiveLine_linkLocal links now hub hcontent hread).1

/-- A step that takes nothing off the queue and hears no line leaves the hub as it is. -/
theorem hub_step (hmild : n.Mild label) (hdrain : ∀ now, label ≠ .drain now)
    (hline : ∀ now line, label ≠ .uplinkLine now line) : (n.step label).hub = n.hub := by
  have hsubmitted (n : Node) (id line : Text) : (n.submitContent id line).hub = n.hub := by
    rw [Node.submitContent]
    split
    · rfl
    · rfl
  obtain ⟨n', calls, hnext, hc⟩ := n.exists_change label
  rw [Node.step, hnext]
  cases hc with
  | drained now | passed now | answered now | skipped now => exact absurd rfl (hdrain now)
  | heard now line => exact absurd rfl (hline now line)
  | connected | lost | accepted | peerLost => exact hmild.elim
  | @ticked engine now hup =>
    dsimp only
    rw [HostLink.applyStep, (HostLinkEngine.onTick_pings now engine).1]
    rfl
  | relayed | resubmitted => exact hsubmitted _ _ _
  | _ => rfl

/-- **What a mild step does to the hub**: it hears a command of another host, or takes an event of
its own. Every other step leaves the table as it is. -/
theorem Up.hub_cases (h : n.Up) (hmild : n.Mild label) :
    (∃ origin c now, n.handled label = some (origin, c) ∧
        (n.step label).hub = n.hub.heed now c ∧
          n.advances label = (HostBridge.toEvent c).toOption.join) ∨
      (∃ event now, label = .drain now ∧ n.handled label = none ∧ HubWork.event event ∈ n.queue ∧
        (n.step label).hub = Hub.step n.hub (now, event) ∧ n.advances label = some event ∧
          n.saidBy label = ((Hub.said now n.hub event).bind HostBridge.toHostCommand).toList) ∨
      n.handled label = none ∧ n.saidBy label = [] ∧ (n.step label).hub = n.hub := by
  cases label with
  | drain now =>
    rw [handled, advances, saidBy, Node.step, next, drain]
    rcases hqueue : n.queue with _ | ⟨_ | id | ⟨c, id⟩, queue⟩
    · exact Or.inr (Or.inr ⟨rfl, rfl, rfl⟩)
    · -- an event of ours: what is said of it goes to all the links
      rename_i event
      refine Or.inr (Or.inl ⟨event, now, rfl, rfl, List.mem_cons_self, ?_, rfl, rfl⟩)
      exact HostLink.hub_drainLocalEvent _ now n.hub _ _ event
    · refine Or.inr (Or.inr ⟨rfl, rfl, ?_⟩)
      dsimp only
      split
      · split
        · rfl
        · rfl
      · rfl
    · exact Or.inl ⟨.peer id, c, now, rfl, HostLink.hub_applyPeerInbound _ now n.hub c id, rfl⟩
  | uplinkLine now line =>
    rcases hup : n.uplink with _ | e
    · refine Or.inr (Or.inr ⟨?_, rfl, ?_⟩)
      · rw [handled, received, heard, hup]
        rfl
      · rw [Node.step, next, hup]
    · have hhandled : n.handled (.uplinkLine now line) =
          (PeerRelay.contentOf line).map (RemoteHost.uplink, ·) := by
        rw [handled, received, heard, hup]
        rfl
      have hhub : (n.step (.uplinkLine now line)).hub =
          (HostLink.receiveLine n.links now e n.hub line).2.1 := by
        rw [Node.step, next, hup]
      -- the uplink has no queue, so its content is dealt with where it is read
      rcases hcontent : PeerRelay.contentOf line with _ | c
      · rw [hhandled, hhub, hcontent]
        exact Or.inr (Or.inr ⟨rfl, rfl, hub_receiveLine_of_none hcontent⟩)
      · obtain ⟨engine, step, hread, -⟩ :=
          HostLinkEngine.onLineReceived_of_sound now (h.uplink e hup) hmild
        refine Or.inl ⟨.uplink, c, now, ?_, ?_, ?_⟩
        · rw [hhandled, hcontent]
          rfl
        · rw [hhub]
          exact HostLink.hub_receiveLine _ now n.hub (Or.inr (h.uplink e hup)) hcontent hread
        · rw [advances, hhandled, hcontent]
          rfl
  | _ =>
    refine Or.inr (Or.inr ⟨rfl, rfl, ?_⟩)
    exact hub_step hmild (by rintro _ ⟨⟩) (by rintro _ _ ⟨⟩)

/-! ### The channel of a user -/

/-- **A step whose words arrive**, and that stores no entry anew but from sessions on the channel
the table shows, for one user. -/
structure Plain (n : Node) (k : Text × Text) (label : Label) : Prop where
  submits : Submits label
  arrives : ∀ c ∈ n.saidBy label, c.heardAs = [c.received]
  tracks : ∀ e ∈ n.advances label, n.hub.Tracks e k

instance (n : Node) (k : Text × Text) (label : Label) : Decidable (n.Plain k label) :=
  decidable_of_iff (Submits label ∧ (∀ c ∈ n.saidBy label, c.heardAs = [c.received]) ∧
      ∀ e ∈ n.advances label, n.hub.Tracks e k)
    ⟨fun ⟨h1, h2, h3⟩ => ⟨h1, h2, h3⟩, fun ⟨h1, h2, h3⟩ => ⟨h1, h2, h3⟩⟩

/-- A node of some name, whose users have valid names. -/
structure Rostered (n : Node) (name : Text) : Prop where
  sound : n.hub.Sound
  host : n.hub.hostName = name
  named : ∀ e, HubWork.event e ∈ n.queue → e.isNamed = true

/-- The events on the queue were there, or are submitted. -/
theorem mem_queue_step {e : ConversEvent} (h : HubWork.event e ∈ (n.step label).queue) :
    HubWork.event e ∈ n.queue ∨ label = .submit e := by
  have hsubmitted {n : Node} {id line : Text}
      (h : HubWork.event e ∈ (n.submitContent id line).queue) : HubWork.event e ∈ n.queue := by
    rw [Node.submitContent] at h
    split at h
    · exact (List.mem_append.mp h).resolve_right fun hbad => by cases List.mem_singleton.mp hbad
    · exact h
  obtain ⟨n', calls, hnext, hc⟩ := n.exists_change label
  rw [Node.step, hnext] at h
  cases hc with
  | submitted event =>
    refine (List.mem_append.mp h).imp_right fun hmem => ?_
    cases List.mem_singleton.mp hmem
    rfl
  | drained now hqueue | passed now hqueue | answered now hqueue | skipped now hqueue =>
    rw [hqueue]
    exact Or.inl (List.mem_cons_of_mem _ h)
  | registered =>
    exact Or.inl ((List.mem_append.mp h).resolve_right fun hbad => by
      cases List.mem_singleton.mp hbad)
  | relayed | resubmitted => exact Or.inl (hsubmitted (n := n.putSession _) h)
  | _ => exact Or.inl h

variable {k : Text × Text} {name : Text}

/-- **A mild step keeps the names valid.** It is needed to read the words of a hub back. -/
theorem Rostered.step (hr : n.Rostered name) (hup : n.Up) (hmild : n.Mild label)
    (hsubmits : Submits label) : (n.step label).Rostered name := by
  have hnamed : ∀ e, HubWork.event e ∈ (n.step label).queue → e.isNamed = true := by
    intro e he
    rcases mem_queue_step he with he | rfl
    · exact hr.named e he
    · exact hsubmits.2
  rcases hup.hub_cases hmild with ⟨origin, c, now, -, hhub, -⟩ |
    ⟨event, now, -, -, hmem, hhub, -, -⟩ | ⟨-, -, hhub⟩
  · refine ⟨?_, ?_, hnamed⟩
    · rw [hhub]
      exact hr.sound.heed now c
    · rw [hhub, Hub.hostName_heed, hr.host]
  · refine ⟨?_, ?_, hnamed⟩
    · rw [hhub]
      refine hr.sound.step now ?_
      rintro sessionId callsign channel rfl
      exact hr.named _ hmem
    · rw [hhub, Hub.hostName_step, hr.host]
  · exact ⟨hhub ▸ hr.sound, hhub ▸ hr.host, hnamed⟩

/-- What is said is an announcement of the hub. -/
theorem mem_saidBy {c : HostCommand} (hc : c ∈ n.saidBy label) : ∃ now event a,
    Hub.said now n.hub event = some a ∧ HostBridge.toHostCommand a = some c := by
  cases label with
  | drain now =>
    rw [saidBy] at hc
    split at hc
    · rename_i event queue hqueue
      obtain ⟨a, ha, hcommand⟩ := Option.bind_eq_some_iff.mp (Option.mem_toList.mp hc)
      exact ⟨now, event, a, ha, hcommand⟩
    · cases hc
  | _ => cases hc

theorem length_saidBy_le (n : Node) (label : Label) : (n.saidBy label).length ≤ 1 := by
  cases label with
  | drain now =>
    rw [saidBy]
    split
    · exact Option.length_toList_le
    · exact Nat.zero_le 1
  | _ => exact Nat.zero_le 1

/-- **Words that arrive** are heard as they are received. A name with a blank in it would not arrive
so. -/
theorem heardAs_saidBy (harrives : ∀ c ∈ n.saidBy label, c.heardAs = [c.received]) :
    (n.saidBy label).flatMap heardAs = (n.saidBy label).map HostCommand.received := by
  rw [List.flatMap_congr harrives]
  exact (List.map_eq_flatMap).symm

/-- **The table follows the words** about a user: of his own hub what it says, and of the others
what they deal with. It is here that an entry that is stored anew has to be on the channel the table
shows. -/
theorem Up.channel_step (hup : n.Up) (hmild : n.Mild label) (hr : n.Rostered name)
    (hplain : n.Plain k label) :
    (n.step label).channelOf k = HostCommand.placedBy k
      (if k.2 = name then (n.saidBy label).map HostCommand.received
      else (n.entries label).map Prod.snd)
      (n.channelOf k) := by
  rw [Node.entries, ← hr.host]
  rcases hup.hub_cases hmild with ⟨origin, c, now, hhandled, hhub, hadvances⟩ |
    ⟨event, now, -, hhandled, hmem, hhub, hadvances, hsaid⟩ | ⟨hhandled, hsaid, hhub⟩
  · have htracks : ∀ e, HostBridge.toEvent c = .ok (some e) → n.hub.Tracks e k := by
      intro e he
      refine hplain.tracks e ?_
      rw [hadvances, he]
      rfl
    rw [channelOf, hhub, Hub.channel_heed hr.sound now c htracks, hhandled,
      saidBy_of_handled hhandled]
    split
    · rfl
    · rfl
  · have hchannel := Hub.channel_step_of_isLocal hr.sound now (hup.events event hmem)
      (fun sessionId callsign channel heq => by
        subst heq
        exact hr.named _ hmem) (hplain.tracks event hadvances)
    rw [hhandled]
    dsimp only
    rw [List.map_map, heardAs_saidBy hplain.arrives, channelOf, hhub, hchannel,
      ← HostLink.toldBy_said, ← hsaid, HostCommand.map_fst_toldBy]
    split
    · exact (placedBy_map_received _ _ _).symm
    · rw [Function.comp_def, List.map_id']
      exact (placedBy_map_received _ _ _).symm
  · rw [hhandled, hsaid, channelOf, hhub]
    split
    · rfl
    · rfl

end Node

namespace Topology

open HostCommand (placedBy)

variable {V : Type*} [DecidableEq V] {T : Topology V} {start : Network V}
  {acts : List (Network.Act V)} {name : V → Text} {k : Text × Text} {i x : V}

/-- **A step of the network that is mild and plain** for one user. -/
def Plain (T : Topology V) (k : Text × Text) (net : Network V) (act : Network.Act V) : Prop :=
  net.Mild act ∧ ∀ q ∈ T.turn net act, (net.hub q.1).Plain k q.2

instance (T : Topology V) (k : Text × Text) (net : Network V) (act : Network.Act V) :
    Decidable (T.Plain k net act) :=
  inferInstanceAs (Decidable (_ ∧ ∀ q ∈ T.turn net act, (net.hub q.1).Plain k q.2))

/-- The links are up, and every hub has its name. -/
structure Settled (T : Topology V) (name : V → Text) (net : Network V) : Prop where
  linked : T.Linked net
  rostered : ∀ x, (net.hub x).Rostered (name x)

theorem Settled.step {net : Network V} {act : Network.Act V} (h : T.Settled name net)
    (hmild : net.Mild act) (hsubmits : ∀ q ∈ T.turn net act, Node.Submits q.2) :
    T.Settled name (T.perform net act) := by
  refine ⟨h.linked.step hmild, fun y => ?_⟩
  rcases hturn : T.turn net act with _ | ⟨z, label⟩
  · rw [perform, hturn]
    exact h.rostered y
  · rw [hub_perform hturn]
    split
    · rename_i hy
      rw [hy]
      exact (h.rostered z).step (h.linked.up z) (h.linked.mild hmild hturn) (hsubmits _ hturn)
    · exact h.rostered y

/-- The words about a user that a hub goes by: his own hub's are what it says. -/
def words (T : Topology V) (name : V → Text) (k : Text × Text) (x : V) (net : Network V)
    (act : Network.Act V) : List HostCommand :=
  match T.turn net act with
  | some (z, label) =>
    if z = x then
      if k.2 = name x then ((net.hub x).saidBy label).map received
      else ((net.hub x).entries label).map Prod.snd
    else []
  | none => []

/-- **A step of the network moves a user as its words do.** So the table is a fold of words, and the
words come in an order that is known. -/
theorem Settled.channel_step {net : Network V} {act : Network.Act V} (h : T.Settled name net)
    (hplain : T.Plain k net act) (x : V) :
    ((T.perform net act).hub x).channelOf k =
      placedBy k (T.words name k x net act) ((net.hub x).channelOf k) := by
  rcases hturn : T.turn net act with _ | ⟨z, label⟩
  · rw [words, perform, hturn]
    rfl
  · rw [words, hub_perform hturn, hturn]
    dsimp only
    by_cases hz : z = x
    · subst hz
      rw [if_pos rfl, if_pos rfl]
      exact (h.linked.up z).channel_step (h.linked.mild hplain.1 hturn) (h.rostered z)
        (hplain.2 _ hturn)
    · rw [if_neg hz, if_neg (Ne.symm hz)]
      rfl

/-- What is said over a run is heard as it is received, if all of it arrives. -/
theorem said_eq (harrives : ∀ p ∈ Run.trace T.perform start acts, ∀ q ∈ T.turn p.1 p.2,
      ∀ c ∈ (p.1.hub q.1).saidBy q.2, c.heardAs = [c.received]) (x : V) : T.said start acts x =
    (Run.trace T.perform start acts).flatMap fun p =>
      match T.turn p.1 p.2 with
      | some (z, label) => if z = x then ((p.1.hub x).saidBy label).map received else []
      | none => [] := by
  refine List.flatMap_congr fun p hp => ?_
  rcases hturn : T.turn p.1 p.2 with _ | ⟨z, label⟩
  · rfl
  · dsimp only
    split
    · rename_i hz
      subst hz
      exact Node.heardAs_saidBy (harrives p hp _ hturn)
    · rfl

section Runs

variable (hstart : T.Settled name start)
  (hplain : ∀ p ∈ Run.trace T.perform start acts, T.Plain k p.1 p.2)

include hplain

theorem said_eq_of_plain (x : V) : T.said start acts x =
    (Run.trace T.perform start acts).flatMap fun p =>
      match T.turn p.1 p.2 with
      | some (z, label) => if z = x then ((p.1.hub x).saidBy label).map received else []
      | none => [] :=
  said_eq (fun p hp q hq => ((hplain p hp).2 q hq).arrives) x

/-- Up to any point of what a hub says, it had said no more at an earlier time. -/
theorem exists_earlier {words : List HostCommand} (hwords : words <+: T.said start acts i) :
    ∃ earlier, earlier <+: acts ∧ T.said start earlier i = words ∧
      ∀ p ∈ Run.trace T.perform start earlier, T.Plain k p.1 p.2 := by
  rw [said_eq_of_plain hplain] at hwords
  -- the loop says one thing at a time
  have hone : ∀ p ∈ Run.trace T.perform start acts, (match T.turn p.1 p.2 with
      | some (z, label) => if z = i then ((p.1.hub i).saidBy label).map received else []
      | none => []).length ≤ 1 := by
    intro p _
    rcases T.turn p.1 p.2 with _ | ⟨z, label⟩
    · exact Nat.zero_le 1
    · dsimp only
      split
      · rw [List.length_map]
        exact Node.length_saidBy_le _ _
      · exact Nat.zero_le 1
  obtain ⟨earlier, hearlier, heq⟩ := Run.exists_prefix_of_flatMap hone hwords
  have hplain' : ∀ p ∈ Run.trace T.perform start earlier, T.Plain k p.1 p.2 := by
    obtain ⟨later, rfl⟩ := hearlier
    intro p hp
    refine hplain p ?_
    rw [Run.trace_append]
    exact List.mem_append_left _ hp
  exact ⟨earlier, hearlier, (said_eq_of_plain hplain' i).trans heq, hplain'⟩

include hstart

theorem Settled.run :
    (∀ p ∈ Run.trace T.perform start acts, T.Settled name p.1) ∧
      T.Settled name (Run.final T.perform start acts) :=
  Run.invariant hstart acts fun p hp hsettled => hsettled.step (hplain p hp).1
    fun q hq => ((hplain p hp).2 q hq).submits

/-- **The user's own hub has him where it says.** What other hosts say of him is not listened to
there. -/
theorem channelOf_own (hk : k.2 = name i) :
    ((Run.final T.perform start acts).hub i).channelOf k =
      placedBy k (T.said start acts i) ((start.hub i).channelOf k) := by
  rw [said_eq_of_plain hplain]
  refine (Run.observe_final (fun net : Network V => (net.hub i).channelOf k)
    (T.words name k i) fun p hp =>
      ((Settled.run hstart hplain).1 p hp).channel_step (hplain p hp) i).trans ?_
  refine congrArg (placedBy k · _) (List.flatMap_congr fun p _ => ?_)
  rw [words]
  rcases T.turn p.1 p.2 with _ | ⟨z, label⟩
  · rfl
  · dsimp only
    rw [if_pos hk]

/-- **Another hub has him where the words put him** that it deals with. These are a beginning of
what his own hub says, so it is where he was at some time. -/
theorem channelOf_other (hk : k.2 ≠ name x) :
    ((Run.final T.perform start acts).hub x).channelOf k =
      placedBy k (T.dealtWith start acts x) ((start.hub x).channelOf k) := by
  rw [dealtWith, log, List.map_flatMap]
  refine (Run.observe_final (fun net : Network V => (net.hub x).channelOf k)
    (T.words name k x) fun p hp =>
      ((Settled.run hstart hplain).1 p hp).channel_step (hplain p hp) x).trans ?_
  refine congrArg (placedBy k · _) (List.flatMap_congr fun p _ => ?_)
  rw [words, entries]
  rcases T.turn p.1 p.2 with _ | ⟨z, label⟩
  · rfl
  · dsimp only
    rw [if_neg hk]
    split
    · rfl
    · rfl

/-- A hub speaks of the users under its name. -/
theorem places_of_mem_said {c : HostCommand} (hc : c ∈ T.said start acts x)
    (hplaces : (c.places k).isSome = true) : k.2 = name x := by
  rw [said_eq_of_plain hplain] at hc
  obtain ⟨p, hp, hc⟩ := List.mem_flatMap.mp hc
  have hsettled := (Settled.run hstart hplain).1 p hp
  split at hc
  · split at hc
    · obtain ⟨c', hc', rfl⟩ := List.mem_map.mp hc
      obtain ⟨now, event, a, ha, hcommand⟩ := Node.mem_saidBy hc'
      rw [places_received] at hplaces
      rw [Hub.places_of_said ha hcommand hplaces, (hsettled.rostered x).sound.host.1]
      exact (hsettled.rostered x).host
    · cases hc
  · cases hc

/-- **Every hub has a user where he is, or where he was.** The hubs are linked in a tree, have
different names, agree about a user, and nothing is on its way; no link is lost, and the words of
the hubs arrive. Then, however the turns fall, the table of every hub shows the user on the channel
on which his own hub has him at some time of the run; and when nothing is on its way, on the one on
which it has him at the end. -/
theorem agree_of_settled [Finite V] (htree : T.graph.IsTree) (hstill : T.Still start)
    (hname : Function.Injective name) (hk : k.2 = name i)
    (hsame : ∀ y, (start.hub y).channelOf k = (start.hub i).channelOf k) (x : V) :
    (∃ earlier, earlier <+: acts ∧ ((Run.final T.perform start acts).hub x).channelOf k =
        ((Run.final T.perform start earlier).hub i).channelOf k) ∧
      (T.Still (Run.final T.perform start acts) →
        ((Run.final T.perform start acts).hub x).channelOf k =
          ((Run.final T.perform start acts).hub i).channelOf k) := by
  by_cases hx : x = i
  · subst hx
    exact ⟨⟨acts, List.prefix_rfl, rfl⟩, fun _ => rfl⟩
  have hother : k.2 ≠ name x := fun hbad => hx (hname (hbad.symm.trans hk))
  obtain ⟨parts, hall, -, hparts, hdone⟩ := interleaves_run htree hstart.linked hstill
    (fun p hp => (hplain p hp).1) x
  -- the words of the others say nothing of the user
  have hwords : ((Run.final T.perform start acts).hub x).channelOf k =
      placedBy k (parts i) ((start.hub i).channelOf k) := by
    rw [channelOf_other hstart hplain hother, hsame]
    refine hall.foldl_eq i (fun j hj c hc channel => ?_) _
    have hnone : c.places k = none := by
      by_contra hbad
      refine hj (hname ?_)
      rw [← hk]
      exact (places_of_mem_said hstart hplain ((hparts j).subset hc)
        (Option.isSome_iff_ne_none.mpr hbad)).symm
    rw [hnone]
    rfl
  constructor
  · obtain ⟨earlier, hearlier, heq, hplain'⟩ := exists_earlier hplain (hparts i)
    exact ⟨earlier, hearlier, by rw [hwords, channelOf_own hstart hplain' hk, heq]⟩
  · intro hend
    rw [hwords, hdone hend, channelOf_own hstart hplain hk]

end Runs

/-- The names of the three hubs. -/
def exampleName (x : Fin 3) : Text :=
  if x = exampleMiddle then "HUB".toList
  else if x = exampleEast then "EAST".toList
  else "WEST".toList

theorem settled_exampleNetwork : exampleStar.Settled exampleName exampleNetwork where
  linked := linked_exampleNetwork
  rostered x := by
    fin_cases x
    · exact ⟨Hub.sound_of_new (@Hub.new_none "HUB".toList rfl) (by decide), rfl, by rintro _ ⟨⟩⟩
    · exact ⟨Hub.sound_of_new (@Hub.new_none "EAST".toList rfl) (by decide), rfl, by rintro _ ⟨⟩⟩
    · exact ⟨Hub.sound_of_new (@Hub.new_none "WEST".toList rfl) (by decide), rfl, by rintro _ ⟨⟩⟩

/-- The west shows the user of the east. -/
theorem agree_exampleWord :
    (∃ earlier, earlier <+: exampleWord ∧
        ((Run.final exampleStar.perform exampleNetwork exampleWord).hub 2).channelOf
            ("M0ABC".toList, "EAST".toList) =
          ((Run.final exampleStar.perform exampleNetwork earlier).hub 1).channelOf
            ("M0ABC".toList, "EAST".toList)) ∧
      (exampleStar.Still (Run.final exampleStar.perform exampleNetwork exampleWord) →
        ((Run.final exampleStar.perform exampleNetwork exampleWord).hub 2).channelOf
            ("M0ABC".toList, "EAST".toList) =
          ((Run.final exampleStar.perform exampleNetwork exampleWord).hub 1).channelOf
            ("M0ABC".toList, "EAST".toList)) := by
  refine agree_of_settled settled_exampleNetwork ?_ isTree_exampleStar ?_ ?_ rfl ?_ 2
  · decide +kernel
  · decide +kernel
  · decide
  · decide +kernel

end Topology

end Convers
