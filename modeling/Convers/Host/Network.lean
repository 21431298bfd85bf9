import Convers.Host.Established
import Convers.Lib.Flood

/-!
# The network

Hubs in a tree: each has at most one parent, which it calls, and a peer session for each hub that
calls it (`Convers.Topology`). Between two neighbours the lines are on their way in order
(`Convers.Network`), and what happens next is a turn of one hub, or the arrival of a line
(`Convers.Network.Act`), in any order.

No hub knows the others, and none keeps a list of what it has seen: a command is passed on to
every link but the one it came from. `Convers.Topology.interleaves_run` is why that is enough:
as long as no link is lost, each hub deals with what every hub says exactly once, in the order in
which it is said.
-/

namespace Convers

open HostCommand HostCommandCodec
open Flood (ofTag)

/-- Which hub calls which, and the id of its session there. -/
structure Topology (V : Type*) where
  /-- The hub that a hub calls. -/
  parent : V → Option V
  /-- The id of the session of a hub at its parent. -/
  peerId : V → Text
  oneWay : ∀ {x y}, parent x = some y → parent y ≠ some x
  distinct : ∀ {x y z}, parent x = some z → parent y = some z → peerId x = peerId y → x = y

/-- The hubs, and the lines on their way from one to another. -/
structure Network (V : Type*) where
  hub : V → Node
  wire : V → V → List Text

/-- What can happen next. -/
inductive Network.Act (V : Type*) where
  /-- A hub does something. -/
  | work (x : V) (label : Node.Label)
  /-- The next line from `x` arrives at `y`. -/
  | deliver (x y : V) (now : DateTimeOffset)

/-- What is left on a wire when a line has been taken off. -/
def Network.remaining {V : Type*} [DecidableEq V] (net : Network V) (act : Act V) (a b : V) :
    List Text :=
  match act with
  | .work .. => net.wire a b
  | .deliver x y _ => if a = x ∧ b = y then (net.wire a b).tail else net.wire a b

/-- The entries of a hub's log for a step: what it deals with, from which host, or what is heard
of what it says. -/
def Node.entries (n : Node) (label : Node.Label) : List (Option RemoteHost × HostCommand) :=
  match n.handled label with
  | some (origin, c) => [(some origin, c)]
  | none => ((n.saidBy label).flatMap heardAs).map fun c => (none, c)

/-- A line that comes in. -/
def Node.Label.isArrival : Node.Label → Bool
  | .uplinkLine .. | .arrive .. => true
  | _ => false

/-- **The steps that lose no link.** -/
def Network.Mild {V : Type*} (net : Network V) : Act V → Prop
  | .work x label => (net.hub x).Mild label ∧ label.isArrival = false
  | .deliver .. => True

instance {V : Type*} (net : Network V) :
    (act : Network.Act V) → Decidable (net.Mild act)
  | .work x label =>
    inferInstanceAs (Decidable ((net.hub x).Mild label ∧ label.isArrival = false))
  | .deliver .. => inferInstanceAs (Decidable True)

namespace Topology

open Network (Act)
open HostLink (writtenTo)

variable {V : Type*} (T : Topology V)

/-- The links. -/
def graph : SimpleGraph V where
  Adj x y := T.parent x = some y ∨ T.parent y = some x
  symm := ⟨fun _ _ => Or.symm⟩
  loopless := ⟨fun _ h => h.elim (fun h => T.oneWay h h) fun h => T.oneWay h h⟩

section Machine

variable [DecidableEq V]

/-- What `x` knows its neighbour `y` as. -/
def port (x y : V) : RemoteHost :=
  if T.parent x = some y then .uplink else .peer (T.peerId y)

/-- How `y` takes in a line from `x`. -/
def takesIn (x y : V) (now : DateTimeOffset) (line : Text) : Node.Label :=
  match T.port y x with
  | .uplink => .uplinkLine now line
  | .peer peerId => .arrive peerId line

/-- The hub whose turn it is, and what it does. -/
def turn (net : Network V) : Act V → Option (V × Node.Label)
  | .work x label => some (x, label)
  | .deliver x y now => (net.wire x y).head?.map fun line => (y, T.takesIn x y now line)

instance (x y : V) : Decidable (T.graph.Adj x y) :=
  inferInstanceAs (Decidable (T.parent x = some y ∨ T.parent y = some x))

/-- One step of the network: the hub takes its turn, and what it writes goes on the wires. -/
def perform (net : Network V) (act : Act V) : Network V :=
  match T.turn net act with
  | none => net
  | some (x, label) =>
    { hub := Function.update net.hub x ((net.hub x).step label)
      wire := fun a b => net.remaining act a b ++
        if a = x ∧ T.graph.Adj a b then
          (writtenTo (T.port a b) ((net.hub a).effects label)).flatMap onWire
        else [] }

/-! ### What is said and what is dealt with -/

/-- What a hub does in a step of the network, as entries of its log. -/
def entries (x : V) (net : Network V) (act : Act V) : List (Option RemoteHost × HostCommand) :=
  match T.turn net act with
  | some (z, label) => if z = x then (net.hub x).entries label else []
  | none => []

/-- The log of a hub over a run. -/
def log (start : Network V) (acts : List (Act V)) (x : V) :
    List (Option RemoteHost × HostCommand) :=
  (Run.trace T.perform start acts).flatMap fun p => T.entries x p.1 p.2

/-- The commands that a hub deals with over a run, its own and those of the others. -/
def dealtWith (start : Network V) (acts : List (Act V)) (x : V) : List HostCommand :=
  (T.log start acts x).map Prod.snd

/-- What is heard of what a hub says over a run. -/
def said (start : Network V) (acts : List (Act V)) (x : V) : List HostCommand :=
  (Run.trace T.perform start acts).flatMap fun p =>
    match T.turn p.1 p.2 with
    | some (z, label) => if z = x then ((p.1.hub x).saidBy label).flatMap heardAs else []
    | none => []

/-- The commands on their way from `x` to `y`: on the wire, and at `y`. -/
def inFlight (x y : V) (net : Network V) : List HostCommand :=
  (net.hub y).pending (T.port y x) ++ (net.wire x y).filterMap PeerRelay.contentOf

/-- **The links are up**, and nothing but sound lines is on the wires. -/
structure Linked (net : Network V) : Prop where
  up : ∀ x, (net.hub x).Up
  connected : ∀ x host, (net.hub x).connected host ↔ ∃ y, T.graph.Adj x y ∧ T.port x y = host
  sound : ∀ x y, ∀ line ∈ net.wire x y, SoundLine line
  adjacent : ∀ x y, ¬T.graph.Adj x y → net.wire x y = []

/-- Nothing is on its way. -/
def Still (net : Network V) : Prop := ∀ x y, T.graph.Adj x y → T.inFlight x y net = []

variable {T} {net : Network V} {act : Act V} {x y z : V} {label : Node.Label}

/-! ### The links -/

theorem port_injective (hy : T.graph.Adj x y) (hz : T.graph.Adj x z)
    (h : T.port x y = T.port x z) : y = z := by
  rw [port, port] at h
  split at h
  · rename_i hparent
    split at h
    · rename_i hparent'
      exact Option.some.inj (hparent.symm.trans hparent')
    · cases h
  · rename_i hparent
    split at h
    · cases h
    · rename_i hparent'
      exact T.distinct (hy.resolve_left hparent) (hz.resolve_left hparent') (RemoteHost.peer.inj h)

theorem Linked.connected_port (h : T.Linked net) (hadj : T.graph.Adj x y) :
    (net.hub x).connected (T.port x y) := (h.connected x _).mpr ⟨y, hadj, rfl⟩

/-- A turn comes from the hub itself, or from a line that is next on a wire. -/
theorem turn_eq_some (h : T.turn net act = some (x, label)) :
    act = .work x label ∨ ∃ y now line lines, act = .deliver y x now ∧
      net.wire y x = line :: lines ∧ label = T.takesIn y x now line := by
  cases act with
  | work z label' =>
    cases h
    exact Or.inl rfl
  | deliver y z now =>
    obtain ⟨line, hline, heq⟩ := Option.map_eq_some_iff.mp h
    cases heq
    obtain ⟨lines, hwire⟩ := List.head?_eq_some_iff.mp hline
    exact Or.inr ⟨y, now, line, lines, rfl, hwire, rfl⟩

/-- The step of the hub whose turn it is is mild. -/
theorem Linked.mild (h : T.Linked net) (hmild : net.Mild act)
    (hturn : T.turn net act = some (x, label)) : (net.hub x).Mild label := by
  rcases turn_eq_some hturn with rfl | ⟨y, now, line, lines, rfl, hwire, rfl⟩
  · exact hmild.1
  · have hsound := h.sound y x line (hwire ▸ List.mem_cons_self)
    rw [takesIn]
    split
    · exact hsound
    · exact hsound

theorem hub_perform (hturn : T.turn net act = some (x, label)) (y : V) :
    (T.perform net act).hub y = if y = x then (net.hub x).step label else net.hub y := by
  rw [perform, hturn]
  exact Function.update_apply _ _ _ _

theorem wire_perform (hturn : T.turn net act = some (x, label)) (a b : V) :
    (T.perform net act).wire a b = net.remaining act a b ++
      if a = x ∧ T.graph.Adj a b then
        (writtenTo (T.port a b) ((net.hub a).effects label)).flatMap onWire
      else [] := by
  rw [perform, hturn]

theorem mem_of_mem_remaining {a b : V} {line : Text} (h : line ∈ net.remaining act a b) :
    line ∈ net.wire a b := by
  cases act with
  | work z label => exact h
  | deliver u v now =>
    rw [Network.remaining] at h
    split at h
    · exact List.mem_of_mem_tail h
    · exact h

/-- **A mild step loses no link.** The tree is so the same all along the run. -/
theorem Linked.step (h : T.Linked net) (hmild : net.Mild act) :
    T.Linked (T.perform net act) := by
  rcases hturn : T.turn net act with _ | ⟨x, label⟩
  · rwa [perform, hturn]
  obtain ⟨hup, hhosts⟩ := (h.up x).step (h.mild hmild hturn)
  refine ⟨fun y => ?_, fun y host => ?_, fun a b line hline => ?_, fun a b hab => ?_⟩
  · rw [hub_perform hturn]
    split
    · exact hup
    · exact h.up y
  · rw [hub_perform hturn, ← h.connected y host]
    split
    · rename_i hy
      rw [hy]
      exact hhosts host
    · exact Iff.rfl
  · rw [wire_perform hturn, List.mem_append] at hline
    rcases hline with hline | hline
    · exact h.sound a b line (mem_of_mem_remaining hline)
    · split at hline
      · rename_i hadj
        obtain ⟨rfl, hadj⟩ := hadj
        obtain ⟨c, hc, hline⟩ := List.mem_flatMap.mp hline
        exact (h.up a).intact (h.mild hmild hturn) (h.connected_port hadj) c hc line hline
      · cases hline
  · rw [wire_perform hturn, if_neg fun hbad => hab hbad.2, List.append_nil]
    refine List.eq_nil_iff_forall_not_mem.mpr fun line hline => ?_
    have hmem := mem_of_mem_remaining hline
    rw [h.adjacent a b hab] at hmem
    cases hmem

/-! ### What is on its way -/

/-- What comes in with the turn of a hub was next on the wire. -/
theorem Linked.filterMap_wire (h : T.Linked net) (hmild : net.Mild act) (hadj : T.graph.Adj x y)
    (hturn : T.turn net act = some (z, label)) :
    (net.wire x y).filterMap PeerRelay.contentOf =
      (if z = y then Node.arriving (T.port y x) label else []) ++
        (net.remaining act x y).filterMap PeerRelay.contentOf := by
  rcases turn_eq_some hturn with rfl | ⟨x', now, line, lines, rfl, hwire, rfl⟩
  · have hnone : Node.arriving (T.port y x) label = [] := by
      cases label with
      | uplinkLine | arrive => cases hmild.2
      | _ => rfl
    rw [hnone, ite_self]
    rfl
  · rw [Network.remaining]
    by_cases hedge : x = x' ∧ y = z
    · obtain ⟨rfl, rfl⟩ := hedge
      have harriving : Node.arriving (T.port y x) (T.takesIn x y now line) =
          (PeerRelay.contentOf line).toList := by
        rw [takesIn]
        split
        · rename_i hport
          exact if_pos hport
        · rename_i id hport
          exact if_pos hport
      rw [if_pos rfl, if_pos ⟨rfl, rfl⟩, harriving, hwire, List.tail_cons]
      rcases hcontent : PeerRelay.contentOf line with _ | c
      · rw [List.filterMap_cons_none hcontent]
        rfl
      · rw [List.filterMap_cons_some hcontent]
        rfl
    · rw [if_neg hedge]
      refine (congrArg (· ++ _) ?_).trans (List.nil_append _) |>.symm
      split
      · rename_i hz
        subst hz
        -- the line comes in at the port of another neighbour
        have hadj' : T.graph.Adj z x' := by
          by_contra hbad
          rw [h.adjacent x' z fun hbad' => hbad hbad'.symm] at hwire
          cases hwire
        have hne : T.port z x ≠ T.port z x' := fun hbad =>
          hedge ⟨port_injective hadj.symm hadj' hbad, rfl⟩
        rw [takesIn]
        split
        · rename_i hport
          exact if_neg fun hbad => hne (hbad.trans hport.symm)
        · rename_i id hport
          exact if_neg fun hbad => hne (hbad.trans hport.symm)
      · rfl

/-- The entries under a port are what is dealt with from that host. -/
theorem ofTag_entries (n : Node) (label : Node.Label) (host : RemoteHost) :
    ofTag (some host) (n.entries label) = Node.ofHost host (n.handled label) := by
  rw [Node.entries]
  rcases n.handled label with _ | ⟨origin, c⟩
  · dsimp only
    rw [Flood.ofTag_map_mk, if_neg (by rintro ⟨⟩)]
    rfl
  · dsimp only [Node.ofHost]
    rw [Flood.ofTag_cons, Flood.ofTag_nil, List.append_nil]
    simp

/-- The entries under no port are what is said. -/
theorem ofTag_none_entries (n : Node) (label : Node.Label) :
    ofTag none (n.entries label) = (n.saidBy label).flatMap heardAs := by
  rw [Node.entries]
  rcases hhandled : n.handled label with _ | ⟨origin, c⟩
  · exact (Flood.ofTag_map_mk _ _ _).trans (if_pos rfl)
  · rw [Node.saidBy_of_handled hhandled]
    rfl

/-- The entries for a connected host are what it hears. -/
theorem filter_entries {n : Node} {label : Node.Label} (hup : n.Up) (hmild : n.Mild label)
    {host : RemoteHost} (hhost : n.connected host) :
    ((n.entries label).filter (·.1 ≠ some host)).map Prod.snd =
      (writtenTo host (n.effects label)).flatMap heardAs := by
  rw [hup.heardBy hmild hhost, Node.entries]
  rcases n.handled label with _ | ⟨origin, c⟩
  · dsimp only
    rw [List.filter_eq_self.mpr, List.map_map]
    · exact List.map_id _
    · intro p hp
      obtain ⟨c, -, rfl⟩ := List.mem_map.mp hp
      rfl
  · dsimp only
    by_cases hhost : host = origin
    · simp [hhost]
    · simp [hhost, Ne.symm hhost]

/-- **What a hub passes on** is on its way to its neighbour until that one deals with it. It is the
queue of a link, whose two ends are in two nodes. -/
theorem Linked.conserve (h : T.Linked net) (hmild : net.Mild act) (hadj : T.graph.Adj x y) :
    T.inFlight x y net ++
        ((T.entries x net act).filter (·.1 ≠ some (T.port x y))).map Prod.snd =
      ofTag (some (T.port y x)) (T.entries y net act) ++ T.inFlight x y (T.perform net act) := by
  rcases hturn : T.turn net act with _ | ⟨z, label⟩
  · rw [entries, entries, perform, hturn]
    exact List.append_nil _
  have hlinked := h.mild hmild hturn
  have hpassed : (if z = x ∧ T.graph.Adj x y then
        (writtenTo (T.port x y) ((net.hub x).effects label)).flatMap onWire
      else []).filterMap PeerRelay.contentOf =
        ((T.entries x net act).filter (·.1 ≠ some (T.port x y))).map Prod.snd := by
    rw [entries, hturn]
    dsimp only
    by_cases hz : z = x
    · subst hz
      rw [if_pos ⟨rfl, hadj⟩, if_pos rfl, filter_entries (h.up z) hlinked (h.connected_port hadj),
        List.filterMap_flatMap]
      rfl
    · rw [if_neg fun hbad => hz hbad.1, if_neg hz]
      rfl
  have hpending : (net.hub y).pending (T.port y x) ++
        (if z = y then Node.arriving (T.port y x) label else []) =
      ofTag (some (T.port y x)) (T.entries y net act) ++
        ((T.perform net act).hub y).pending (T.port y x) := by
    rw [entries, hturn, hub_perform hturn]
    dsimp only
    by_cases hz : z = y
    · subst hz
      rw [if_pos rfl, if_pos rfl, if_pos rfl, ofTag_entries]
      exact (h.up z).conserve hlinked (h.connected_port hadj.symm)
    · rw [if_neg hz, if_neg hz, if_neg (Ne.symm hz), List.append_nil]
      rfl
  rw [inFlight, inFlight, wire_perform hturn, List.filterMap_append,
    h.filterMap_wire hmild hadj hturn, ← List.append_assoc, hpending]
  simp only [List.append_assoc]
  refine congrArg (_ ++ ·) (congrArg (_ ++ ·) (congrArg (_ ++ ·) ?_))
  rw [← hpassed]
  simp only [eq_comm]

/-! ### Runs -/

section Runs

variable {start : Network V} {acts : List (Act V)}

theorem ofTag_flatMap {β : Type*} (k : Option RemoteHost)
    (f : β → List (Option RemoteHost × HostCommand)) (l : List β) :
    ofTag k (l.flatMap f) = l.flatMap fun b => ofTag k (f b) := by
  induction l with
  | nil => rfl
  | cons b l ih => rw [List.flatMap_cons, Flood.ofTag_append, ih, List.flatMap_cons]

theorem passed_flatMap {β : Type*} (keep : Option RemoteHost × HostCommand → Bool)
    (f : β → List (Option RemoteHost × HostCommand)) (l : List β) :
    ((l.flatMap f).filter keep).map Prod.snd =
      l.flatMap fun b => ((f b).filter keep).map Prod.snd := by
  rw [List.filter_flatMap, List.map_flatMap]

/-- What is under no port in the log is what the hub says. -/
theorem ofTag_none_log (x : V) : ofTag none (T.log start acts x) = T.said start acts x := by
  rw [log, said, ofTag_flatMap]
  refine List.flatMap_congr fun p _ => ?_
  rw [entries]
  rcases T.turn p.1 p.2 with _ | ⟨z, label⟩
  · rfl
  · dsimp only
    split
    · exact ofTag_none_entries _ _
    · rfl

section Mild

variable (hstart : T.Linked start) (hmild : ∀ p ∈ Run.trace T.perform start acts, p.1.Mild p.2)

include hstart hmild

theorem Linked.run :
    (∀ p ∈ Run.trace T.perform start acts, T.Linked p.1) ∧
      T.Linked (Run.final T.perform start acts) :=
  Run.invariant hstart acts fun p hp hlinked => hlinked.step (hmild p hp)

/-- **What a hub has passed on to a neighbour** is dealt with there, or on its way. With it the run
of a network is an instance of the flood on a tree. -/
theorem passed_eq (hstill : T.Still start) (hadj : T.graph.Adj x y) :
    ((T.log start acts x).filter (·.1 ≠ some (T.port x y))).map Prod.snd =
      ofTag (some (T.port y x)) (T.log start acts y) ++
        T.inFlight x y (Run.final T.perform start acts) := by
  have hconserve := @Run.conserve _ _ T.perform _ (T.inFlight x y)
    (fun net act => ((T.entries x net act).filter (·.1 ≠ some (T.port x y))).map Prod.snd)
    (fun net act => ofTag (some (T.port y x)) (T.entries y net act)) start acts
    fun p hp => ((Linked.run hstart hmild).1 p hp).conserve (hmild p hp) hadj
  rw [hstill x y hadj, List.nil_append] at hconserve
  rw [log, log, passed_flatMap, ofTag_flatMap]
  exact hconserve

/-- A command in the log is from a neighbour, or the hub's own. -/
theorem exists_port_of_mem_log {host : RemoteHost} {c : HostCommand}
    (hc : (some host, c) ∈ T.log start acts x) : ∃ y, T.graph.Adj x y ∧ T.port x y = host := by
  obtain ⟨p, hp, hmem⟩ := List.mem_flatMap.mp hc
  have hlinked := (Linked.run hstart hmild).1 p hp
  rw [entries] at hmem
  split at hmem
  · rename_i z label hturn
    split at hmem
    · rename_i hz
      subst hz
      refine (hlinked.connected z host).mp ?_
      rw [Node.entries] at hmem
      split at hmem
      · rename_i origin c' hhandled
        cases List.mem_singleton.mp hmem
        exact ((hlinked.up z).stable_of_handled (hlinked.mild (hmild p hp) hturn) hhandled).2.2
      · obtain ⟨c', -, hbad⟩ := List.mem_map.mp hmem
        cases hbad
    · cases hmem
  · cases hmem

end Mild

/-- The logs of the hubs are those of a flooding. -/
def flood (hstart : T.Linked start) (hstill : T.Still start)
    (hmild : ∀ p ∈ Run.trace T.perform start acts, p.1.Mild p.2) :
    Flood T.graph RemoteHost HostCommand where
  port := T.port
  log := T.log start acts
  port_injective := port_injective
  heard := exists_port_of_mem_log hstart hmild
  inOrder hadj := ⟨_, (passed_eq hstart hmild hstill hadj).symm⟩

/-- **The network relays everything exactly once and in order.** The hubs are linked in a tree,
nothing is on its way, and no link is lost. Then, however the turns of the hubs and the arrivals
of the lines fall, what a hub deals with is an interleaving of all that it says and of a beginning
of what each other hub says; and of all that each of them says once nothing is on its way. -/
theorem interleaves_run [Finite V] (htree : T.graph.IsTree) (hstart : T.Linked start)
    (hstill : T.Still start) (hmild : ∀ p ∈ Run.trace T.perform start acts, p.1.Mild p.2) (x : V) :
    ∃ parts : V → List HostCommand, Flood.Interleaves parts (T.dealtWith start acts x) ∧
      parts x = T.said start acts x ∧ (∀ y, parts y <+: T.said start acts y) ∧
        (T.Still (Run.final T.perform start acts) → parts = T.said start acts) := by
  have hsaid : (flood hstart hstill hmild).said = T.said start acts :=
    funext fun y => ofTag_none_log y
  obtain ⟨parts, hall, hown, hparts, hdrained⟩ :=
    (flood hstart hstill hmild).interleaves_log htree x
  rw [hsaid] at hown hparts hdrained
  refine ⟨parts, hall, hown, hparts, fun hend => hdrained fun y z hadj => ?_⟩
  have hpassed := passed_eq hstart hmild hstill hadj
  rw [hend y z hadj, List.append_nil] at hpassed
  exact hpassed.symm

end Runs

instance [Fintype V] (net : Network V) : Decidable (T.Still net) :=
  inferInstanceAs (Decidable (∀ x y, T.graph.Adj x y → T.inFlight x y net = []))

end Machine

/-! ### A hub that two others call -/

/-- Two hubs call the first one. -/
def exampleStar : Topology (Fin 3) where
  parent x := if x = 0 then none else some 0
  peerId x := Node.peerIdOf x
  oneWay := by decide
  distinct {x y z} _ _ h := Fin.ext (Node.peerIdOf_injective h)

/-- An engine whose handshake is done. -/
def exampleEngine (name : Text) (inbound : Bool) : HostLinkEngine :=
  { HostLinkEngine.new (HostLinkOptions.ofHostName name) inbound with state := .established }

/-- A session that reads. -/
def examplePeer (k : ℕ) : PeerSession where
  id := Node.peerIdOf k
  engine := exampleEngine "HUB".toList true
  inbox := []
  registered := true
  earlyContent := []
  phase := .receiving

/-- A hub that is called twice. -/
def exampleHub : Node :=
  { ((Node.new (HostLinkOptions.ofHostName "HUB".toList) (Hub.fresh "HUB".toList)).putSession
      (examplePeer 1)).putSession (examplePeer 2) with nextPeer := 2 }

/-- A hub that calls another. -/
def exampleLeaf (name : Text) : Node :=
  { Node.new (HostLinkOptions.ofHostName name) (Hub.fresh name) with
    uplink := some (exampleEngine name false) }

/-- The three hubs, of no users yet. -/
def exampleNetwork : Network (Fin 3) where
  hub x :=
    if x = 0 then exampleHub else exampleLeaf (if x = 1 then "EAST".toList else "WEST".toList)
  wire _ _ := []

theorem find?_exampleHub (id : Text) :
    exampleHub.sessions.find? id = if id = Node.peerIdOf 2 then some (examplePeer 2)
      else if id = Node.peerIdOf 1 then some (examplePeer 1) else none :=
  Node.find?_putSession.trans (congrArg (ite _ _) Node.find?_putSession)

/-- What is said of the two sessions. -/
theorem examplePeer_of_find? {id : Text} {s : PeerSession}
    (h : exampleHub.sessions.find? id = some s) :
    ∃ k ≤ 2, id = Node.peerIdOf k ∧ s = examplePeer k := by
  rw [find?_exampleHub] at h
  split at h
  · rename_i hid
    exact ⟨2, le_refl _, hid, (Option.some.inj h).symm⟩
  · split at h
    · rename_i hid
      exact ⟨1, by decide, hid, (Option.some.inj h).symm⟩
    · cases h

theorem up_exampleHub : exampleHub.Up where
  orderly := by
    refine ⟨by rintro _ ⟨⟩, fun id s hs => ?_, fun id s hs => ?_, by rintro _ _ ⟨⟩⟩
    · obtain ⟨k, hk, hid, -⟩ := examplePeer_of_find? hs
      exact ⟨k, hk, hid⟩
    · obtain ⟨k, -, -, rfl⟩ := examplePeer_of_find? hs
      exact ⟨fun _ => rfl, by rintro ⟨⟩, fun _ _ => rfl⟩
  uplink := by rintro _ ⟨⟩
  sessions id s hs := by
    obtain ⟨k, -, -, rfl⟩ := examplePeer_of_find? hs
    exact ⟨rfl, rfl, by rintro _ ⟨⟩⟩
  events := by rintro _ ⟨⟩
  commands := by rintro _ _ ⟨⟩

theorem up_exampleLeaf (name : Text) : (exampleLeaf name).Up where
  orderly := by
    refine ⟨fun e he => ?_, by rintro _ _ ⟨⟩, by rintro _ _ ⟨⟩, by rintro _ _ ⟨⟩⟩
    cases he
    exact Or.inr rfl
  uplink e he := by
    cases he
    rfl
  sessions := by rintro _ _ ⟨⟩
  events := by rintro _ ⟨⟩
  commands := by rintro _ _ ⟨⟩

theorem linked_exampleNetwork : exampleStar.Linked exampleNetwork where
  up x := by
    dsimp only [exampleNetwork]
    split
    · exact up_exampleHub
    · exact up_exampleLeaf _
  connected x host := by
    dsimp only [exampleNetwork]
    split
    · rename_i hx
      subst hx
      cases host with
      | uplink => exact ⟨by rintro ⟨⟩, by decide⟩
      | peer id =>
        refine (up_exampleHub.connected_peer_iff id).trans ?_
        constructor
        · rintro ⟨s, hs⟩
          rw [find?_exampleHub] at hs
          split at hs
          · rename_i hid
            exact ⟨2, by decide, hid ▸ rfl⟩
          · split at hs
            · rename_i hid
              exact ⟨1, by decide, hid ▸ rfl⟩
            · cases hs
        · rintro ⟨y, hadj, hport⟩
          rw [find?_exampleHub]
          fin_cases y
          · exact absurd hadj (by decide)
          · cases hport
            exact ⟨examplePeer 1, rfl⟩
          · cases hport
            exact ⟨examplePeer 2, rfl⟩
    · rename_i hx
      have hport : ∀ y, exampleStar.graph.Adj x y → exampleStar.port x y = .uplink := by
        revert x
        decide
      have hparent : exampleStar.graph.Adj x 0 := Or.inl (if_neg hx)
      cases host with
      | uplink => exact ⟨fun _ => ⟨0, hparent, hport 0 hparent⟩, fun _ => rfl⟩
      | peer id =>
        refine ⟨by rintro ⟨⟩, ?_⟩
        rintro ⟨y, hadj, hbad⟩
        cases (hport y hadj).symm.trans hbad
  sound x y := by rintro _ ⟨⟩
  adjacent _ _ _ := rfl

/-- A user joins in the east, and the west hears of it. -/
def exampleWord : List (Network.Act (Fin 3)) :=
  [.work 1 (.submit (.localJoin "rf-1".toList "m0abc".toList 7)),
    .work 1 (.drain Hub.exampleMoment), .deliver 1 0 Hub.exampleMoment,
    .work 0 (.read Hub.exampleMoment (Node.peerIdOf 1)), .work 0 (.drain Hub.exampleMoment),
    .deliver 0 2 Hub.exampleMoment]

/-- The hub in the middle of the star. -/
def exampleMiddle : Fin 3 := 0

/-- The hub in the east. -/
def exampleEast : Fin 3 := 1

/-- The hub in the west. -/
def exampleWest : Fin 3 := 2

theorem isTree_exampleStar : exampleStar.graph.IsTree := by
  rw [SimpleGraph.isTree_iff_connected_and_card]
  constructor
  · decide
  · rw [Nat.card_eq_fintype_card, Nat.card_eq_fintype_card]
    decide

/-- The west deals with what the east says. -/
theorem interleaves_exampleWord :
    ∃ parts : Fin 3 → List HostCommand,
      Flood.Interleaves parts (exampleStar.dealtWith exampleNetwork exampleWord 2) ∧
        parts 2 = exampleStar.said exampleNetwork exampleWord 2 ∧
          (∀ y, parts y <+: exampleStar.said exampleNetwork exampleWord y) ∧
            (exampleStar.Still (Run.final exampleStar.perform exampleNetwork exampleWord) →
              parts = exampleStar.said exampleNetwork exampleWord) := by
  refine interleaves_run isTree_exampleStar linked_exampleNetwork ?_ ?_ 2
  · decide +kernel
  · decide +kernel

end Topology

end Convers
