import Convers.Text
import Convers.Lib.Table

/-!
# The streams of the node

The node gives every stream a handle. What arrives on a handle goes to its connection, which
exists from the accept push on, or from the moment our own `open` is carried on after its
reply. That moment is a task's, so the client may have raised more pushes by then: what was
received before it is put aside (`Convers.RhpNodeLink.onReceived`) and handed over when the
connection is registered (`Convers.RhpNodeLink.registerChild`).

The client raises its events one at a time. A close push does two things, and only the first
under the lock (`Convers.RhpNodeLink.forgetPending`, `Convers.RhpNodeLink.dropChild`), so a task
may run between them. `Convers.Attachment.step` is one step of the client, of such a task, or
of the reader of a connection.
-/

namespace Convers

/-- `RhpChildConnection`: one stream. -/
structure RhpChildConnection where
  handle : ℤ
  remoteCallsign : Text
  /-- `_inbound`: what is not read yet. -/
  inbound : List (List UInt8)
  /-- Whether the channel is completed. -/
  completed : Bool
  deriving DecidableEq

namespace RhpChildConnection

/-- The constructor. -/
def new (handle : ℤ) (remoteCallsign : Text) : RhpChildConnection :=
  ⟨handle, remoteCallsign, [], false⟩

variable (c : RhpChildConnection)

/-- `Deliver`. Nothing is written to a completed channel. -/
def deliver (data : List UInt8) : RhpChildConnection :=
  if c.completed then c else { c with inbound := c.inbound ++ [data] }

/-- `MarkClosed`. -/
def markClosed : RhpChildConnection := { c with completed := true }

/-- `ReceiveAsync`: a chunk, or the end of the stream; it waits while there is neither. -/
def receive : Option (Option (List UInt8) × RhpChildConnection) :=
  match c.inbound with
  | data :: inbound => some (some data, { c with inbound := inbound })
  | [] => if c.completed then some (none, c) else none

/-- What a reader still reads, up to the first end of the stream. -/
def rest : List (Option (List UInt8)) := c.inbound.map some ++ if c.completed then [none] else []

@[simp] theorem handle_deliver (data : List UInt8) : (c.deliver data).handle = c.handle := by
  unfold deliver
  split <;> rfl

@[simp] theorem handle_markClosed : c.markClosed.handle = c.handle := rfl

theorem deliver_of_open (hopen : c.completed = false) (data : List UInt8) :
    c.deliver data = { c with inbound := c.inbound ++ [data] } :=
  if_neg (by simp [hopen])

/-- What was put aside is handed over in order. -/
theorem foldl_deliver (hopen : c.completed = false) (pending : List (List UInt8)) :
    pending.foldl deliver c = { c with inbound := c.inbound ++ pending } := by
  induction pending generalizing c with
  | nil => rw [List.foldl_nil, List.append_nil]
  | cons data pending ih =>
    rw [List.foldl_cons, c.deliver_of_open hopen]
    exact (ih { c with inbound := c.inbound ++ [data] } hopen).trans (by simp)

variable {c}

theorem handle_of_receive {answer : Option (List UInt8)} {c' : RhpChildConnection}
    (h : c.receive = some (answer, c')) : c'.handle = c.handle := by
  unfold receive at h
  split at h
  · cases h
    rfl
  · split at h
    · cases h
      rfl
    · cases h

end RhpChildConnection

/-- `RhpNodeLink`, on one client of it. -/
structure RhpNodeLink where
  /-- The connections made so far. The others go by their place here. -/
  connections : List RhpChildConnection
  /-- `_children`. -/
  children : Table.Dict ℤ ℕ
  /-- `_pendingRecv`. -/
  pendingRecv : Table.Dict ℤ (List (List UInt8))
  /-- `_accepted`: the inbound connections. -/
  accepted : List ℕ

namespace RhpNodeLink

/-- A link without streams. -/
def new : RhpNodeLink := ⟨[], .empty, .empty, []⟩

variable (l : RhpNodeLink)

/-- What was put aside for a handle. -/
def pendingOf (handle : ℤ) : List (List UInt8) := (l.pendingRecv.get? handle).getD []

/-- `RegisterChild`. -/
def registerChild (child : RhpChildConnection) : RhpNodeLink :=
  { l with
    connections := l.connections ++ [(l.pendingOf child.handle).foldl .deliver child]
    children := l.children.set child.handle l.connections.length
    pendingRecv := l.pendingRecv.remove child.handle }

/-- `OnAccepted`. -/
def onAccepted (child : ℤ) (remote : Option Text) : RhpNodeLink :=
  let registered := l.registerChild (.new child (remote.getD []))
  { registered with accepted := registered.accepted ++ [l.connections.length] }

/-- The end of `OpenAsync`, after the reply. -/
def onOpened (handle : ℤ) (remote : Text) : RhpNodeLink := l.registerChild (.new handle remote)

/-- `OnReceived`, of the decoded data. -/
def onReceived (handle : ℤ) (data : List UInt8) : RhpNodeLink :=
  match l.children.get? handle with
  | some id => { l with connections := l.connections.modify id (·.deliver data) }
  | none => { l with pendingRecv := l.pendingRecv.set handle (l.pendingOf handle ++ [data]) }

/-- `OnClosed`, under the lock. -/
def forgetPending (handle : ℤ) : RhpNodeLink :=
  { l with pendingRecv := l.pendingRecv.remove handle }

/-- `OnClosed` after the lock, and `CloseChildAsync`: the child is taken off and marked. -/
def dropChild (handle : ℤ) : RhpNodeLink :=
  match l.children.get? handle with
  | some id =>
    { l with
      connections := l.connections.modify id .markClosed
      children := l.children.remove handle }
  | none => l

/-! ### What the operations do -/

variable {base : ℕ} {handle h : ℤ} {l l' : RhpNodeLink} {id : ℕ} {c c' : RhpChildConnection}

/-- A connection changes. -/
def replace (l : RhpNodeLink) (id : ℕ) (c : RhpChildConnection) : RhpNodeLink :=
  { l with connections := l.connections.set id c }

/-- Every child is a connection of its own handle. -/
def Wired (l : RhpNodeLink) : Prop :=
  ∀ handle id, l.children.get? handle = some id →
    ∃ c, l.connections[id]? = some c ∧ c.handle = handle

theorem modify_eq_set {f : RhpChildConnection → RhpChildConnection}
    (hc : l.connections[id]? = some c) :
    l.connections.modify id f = l.connections.set id (f c) := by
  ext1 i
  rw [List.getElem?_modify, List.getElem?_set']
  rcases eq_or_ne id i with rfl | hne
  · simp [hc]
  · simp [hne]

theorem onReceived_of_child (data : List UInt8) (hchild : l.children.get? h = some id)
    (hc : l.connections[id]? = some c) : l.onReceived h data = l.replace id (c.deliver data) := by
  rw [onReceived, hchild]
  dsimp only
  rw [modify_eq_set hc]
  rfl

theorem onReceived_of_none (data : List UInt8) (hchild : l.children.get? h = none) :
    l.onReceived h data =
      { l with pendingRecv := l.pendingRecv.set h (l.pendingOf h ++ [data]) } := by
  rw [onReceived, hchild]

theorem dropChild_of_child (hchild : l.children.get? h = some id)
    (hc : l.connections[id]? = some c) :
    l.dropChild h = { l.replace id c.markClosed with children := l.children.remove h } := by
  rw [dropChild, hchild]
  dsimp only
  rw [modify_eq_set hc]
  rfl

theorem dropChild_of_none (hchild : l.children.get? h = none) : l.dropChild h = l := by
  rw [dropChild, hchild]

theorem getElem?_replace_self (hc : l.connections[id]? = some c) :
    (l.replace id c').connections[id]? = some c' := by
  rw [replace, List.getElem?_set_self (List.getElem?_eq_some_iff.mp hc).1]

theorem getElem?_replace_of_ne {i : ℕ} (hne : id ≠ i) :
    (l.replace id c').connections[i]? = l.connections[i]? :=
  List.getElem?_set_ne hne

theorem pendingOf_remove : pendingOf { l with pendingRecv := l.pendingRecv.remove h } handle =
    if handle = h then [] else l.pendingOf handle := by
  rw [pendingOf, Table.Dict.get?_remove]
  split <;> rfl

theorem pendingOf_set (pending : List (List UInt8)) :
    pendingOf { l with pendingRecv := l.pendingRecv.set h pending } handle =
      if handle = h then pending else l.pendingOf handle := by
  rw [pendingOf, Table.Dict.get?_set]
  split <;> rfl

theorem length_registerChild (l : RhpNodeLink) (child : RhpChildConnection) :
    (l.registerChild child).connections.length = l.connections.length + 1 :=
  List.length_append

theorem Wired.replace (hl : l.Wired) (hc : l.connections[id]? = some c)
    (hkeep : c'.handle = c.handle) : (l.replace id c').Wired := by
  intro k i hi
  obtain ⟨d, hd, hk⟩ := hl k i hi
  rcases eq_or_ne id i with rfl | hne
  · cases hc.symm.trans hd
    exact ⟨c', getElem?_replace_self hc, hkeep.trans hk⟩
  · exact ⟨d, (getElem?_replace_of_ne hne).trans hd, hk⟩

theorem Wired.registerChild (hl : l.Wired) (child : RhpChildConnection) :
    (l.registerChild child).Wired := by
  intro k i hi
  have hi : (l.children.set child.handle l.connections.length).get? k = some i := hi
  rw [Table.Dict.get?_set] at hi
  rw [RhpNodeLink.registerChild]
  split at hi
  · rename_i heq
    cases hi
    refine ⟨_, List.getElem?_concat_length, ?_⟩
    have hhandle : ∀ (pending : List (List UInt8)) (d : RhpChildConnection),
        (pending.foldl RhpChildConnection.deliver d).handle = d.handle := by
      intro pending
      induction pending with
      | nil => exact fun _ => rfl
      | cons data pending ih => exact fun d => (ih _).trans (d.handle_deliver data)
    rw [hhandle, heq]
  · obtain ⟨d, hd, hk⟩ := hl k i hi
    exact ⟨d, (List.getElem?_append_left (List.getElem?_eq_some_iff.mp hd).1).trans hd, hk⟩

theorem Wired.dropChild (hl : l.Wired) (k : ℤ) : (l.dropChild k).Wired := by
  rcases hchild : l.children.get? k with _ | id
  · rwa [dropChild_of_none hchild]
  · obtain ⟨c, hc, -⟩ := hl k id hchild
    rw [dropChild_of_child hchild hc]
    intro j i hi
    have hi : Table.Dict.get? (l.children.remove k) j = some i := hi
    rw [Table.Dict.get?_remove] at hi
    split at hi
    · cases hi
    · exact (hl.replace hc c.handle_markClosed) j i hi

end RhpNodeLink

/-- What can happen next. -/
inductive RhpEvent where
  /-- An accept push. -/
  | accepted (child : ℤ) (remote : Option Text)
  /-- A recv push. -/
  | received (handle : ℤ) (data : List UInt8)
  /-- A close push, as far as the lock. -/
  | closing (handle : ℤ)
  /-- The rest of the close push. -/
  | closed (handle : ℤ)
  /-- A task goes on after the reply to its `open`. -/
  | opened (handle : ℤ) (remote : Text)
  /-- A task closes the stream at our side. -/
  | closeChild (handle : ℤ)
  /-- The reader of a connection is given an answer. -/
  | read (id : ℕ) (answer : Option (List UInt8))
  deriving DecidableEq

namespace RhpEvent

/-- The client raises the event, for a push. -/
def isPush : RhpEvent → Bool
  | accepted .. | received .. | closing _ | closed _ => true
  | opened .. | closeChild _ | read .. => false

/-- The event registers a handle. -/
def registers (handle : ℤ) : RhpEvent → Bool
  | accepted child _ => child = handle
  | opened child _ => child = handle
  | _ => false

/-- The data an event brings on a handle. -/
def dataOn (handle : ℤ) : RhpEvent → Option (List UInt8)
  | received h data => if h = handle then some data else none
  | _ => none

/-- The answer an event gives to the reader of a connection. -/
def answerTo (id : ℕ) : RhpEvent → Option (Option (List UInt8))
  | read i answer => if i = id then some answer else none
  | _ => none

end RhpEvent

/-- What was received on a handle. -/
def receivedOn (handle : ℤ) (events : List RhpEvent) : List (List UInt8) :=
  events.filterMap (·.dataOn handle)

/-- What the reader of a connection was given. -/
def answersTo (id : ℕ) (events : List RhpEvent) : List (Option (List UInt8)) :=
  events.filterMap (·.answerTo id)

/-- The link, with the handle of the close push that the client is in the middle of. -/
structure Attachment where
  link : RhpNodeLink
  closing : Option ℤ

namespace Attachment

/-- The client is attached, without streams. -/
def new : Attachment := ⟨.new, none⟩

variable (s : Attachment)

/-- **One step.** The client's events wait for the close push it is in the middle of; those of
the tasks and the readers do not. -/
def step : RhpEvent → Option Attachment
  | .accepted child remote =>
    if s.closing = none then some { s with link := s.link.onAccepted child remote } else none
  | .received handle data =>
    if s.closing = none then some { s with link := s.link.onReceived handle data } else none
  | .closing handle =>
    if s.closing = none then some ⟨s.link.forgetPending handle, some handle⟩ else none
  | .closed handle =>
    if s.closing = some handle then some ⟨s.link.dropChild handle, none⟩ else none
  | .opened handle remote => some { s with link := s.link.onOpened handle remote }
  | .closeChild handle => some { s with link := s.link.dropChild handle }
  | .read id answer =>
    match s.link.connections[id]?.bind (·.receive) with
    | some (given, c) =>
      if given = answer then
        some { s with link := { s.link with connections := s.link.connections.set id c } }
      else none
    | none => none

/-- A run, if every event can happen when it does. -/
def run : Attachment → List RhpEvent → Option Attachment
  | s, [] => some s
  | s, event :: events => (s.step event).bind (run · events)

variable {s} {t : Attachment}

theorem run_append (s : Attachment) (events events' : List RhpEvent) :
    s.run (events ++ events') = (s.run events).bind (·.run events') := by
  induction events generalizing s with
  | nil => rfl
  | cons event events ih =>
    rw [List.cons_append, run, run]
    cases s.step event with
    | none => rfl
    | some t => exact ih t

/-- **The induction on runs**: what a step keeps, with the events so far, a run does. Both laws on
the reader and the registration are by it. -/
theorem run_induction {I : List RhpEvent → Attachment → Prop} (hnew : I [] s)
    (hstep : ∀ log u event v, I log u → u.step event = some v → I (log ++ [event]) v)
    {events : List RhpEvent} (hrun : s.run events = some t) : I events t := by
  induction events using List.reverseRecOn generalizing t with
  | nil =>
    cases hrun
    exact hnew
  | append_singleton events event ih =>
    rw [run_append] at hrun
    obtain ⟨u, hu, hlast⟩ := Option.bind_eq_some_iff.mp hrun
    rw [run] at hlast
    obtain ⟨v, hv, hend⟩ := Option.bind_eq_some_iff.mp hlast
    rw [← Option.some.inj hend]
    exact hstep events u event v (ih hu) hv

/-- **What a step can be.** -/
inductive Move (s : Attachment) : RhpEvent → Attachment → Prop
  | accepted (child : ℤ) (remote : Option Text) (hidle : s.closing = none) :
      Move s (.accepted child remote) { s with link := s.link.onAccepted child remote }
  | received (handle : ℤ) (data : List UInt8) (hidle : s.closing = none) :
      Move s (.received handle data) { s with link := s.link.onReceived handle data }
  | closing (handle : ℤ) (hidle : s.closing = none) :
      Move s (.closing handle) ⟨s.link.forgetPending handle, some handle⟩
  | closed (handle : ℤ) (hbusy : s.closing = some handle) :
      Move s (.closed handle) ⟨s.link.dropChild handle, none⟩
  | opened (handle : ℤ) (remote : Text) :
      Move s (.opened handle remote) { s with link := s.link.onOpened handle remote }
  | closeChild (handle : ℤ) :
      Move s (.closeChild handle) { s with link := s.link.dropChild handle }
  | read (id : ℕ) (answer : Option (List UInt8)) (c c' : RhpChildConnection)
      (hc : s.link.connections[id]? = some c) (hreceive : c.receive = some (answer, c')) :
      Move s (.read id answer)
        { s with link := { s.link with connections := s.link.connections.set id c' } }

theorem move_step {event : RhpEvent} (h : s.step event = some t) : Move s event t := by
  rcases event with ⟨child, remote⟩ | ⟨handle, data⟩ | handle | handle | ⟨handle, remote⟩ |
    handle | ⟨id, answer⟩ <;> simp only [step] at h
  · split at h
    · cases h
      exact .accepted child remote ‹_›
    · cases h
  · split at h
    · cases h
      exact .received handle data ‹_›
    · cases h
  · split at h
    · cases h
      exact .closing handle ‹_›
    · cases h
  · split at h
    · cases h
      exact .closed handle ‹_›
    · cases h
  · cases h
    exact .opened handle remote
  · cases h
    exact .closeChild handle
  · split at h
    · rename_i given c' hgiven
      split at h
      · rename_i hanswer
        obtain ⟨c, hc, hreceive⟩ := Option.bind_eq_some_iff.mp hgiven
        cases h
        exact .read id answer c c' hc (hanswer ▸ hreceive)
      · cases h
    · cases h

/-- Children stay connections of their own. -/
theorem Move.wired {event : RhpEvent} (hmove : s.Move event t)
    (hs : s.link.Wired) : t.link.Wired := by
  cases hmove with
  | accepted child remote => exact hs.registerChild _
  | received handle data =>
    dsimp only
    rcases hchild : s.link.children.get? handle with _ | id
    · rw [RhpNodeLink.onReceived_of_none data hchild]
      exact hs
    · obtain ⟨c, hc, -⟩ := hs handle id hchild
      rw [RhpNodeLink.onReceived_of_child data hchild hc]
      exact hs.replace hc (c.handle_deliver data)
  | closing handle => exact hs
  | closed handle => exact hs.dropChild handle
  | opened handle remote => exact hs.registerChild _
  | closeChild handle => exact hs.dropChild handle
  | read id answer c c' hc hreceive =>
    exact hs.replace hc (RhpChildConnection.handle_of_receive hreceive)

/-- No connection goes away. -/
theorem Move.length_le {event : RhpEvent} (hmove : s.Move event t) :
    s.link.connections.length ≤ t.link.connections.length := by
  have hdrop : ∀ h, (s.link.dropChild h).connections.length = s.link.connections.length := by
    intro h
    unfold RhpNodeLink.dropChild
    split
    · exact List.length_modify ..
    · rfl
  cases hmove with
  | accepted child remote => exact (Nat.le_succ _).trans_eq (s.link.length_registerChild _).symm
  | received h data =>
    dsimp only
    unfold RhpNodeLink.onReceived
    split
    · exact (List.length_modify ..).ge
    · exact le_rfl
  | closing h => exact le_rfl
  | closed h => exact (hdrop h).ge
  | opened h remote => exact (Nat.le_succ _).trans_eq (s.link.length_registerChild _).symm
  | closeChild h => exact (hdrop h).ge
  | read id answer c c' hc hreceive => exact List.length_set.ge

/-- **A close push is not interrupted by the client**: since it reached the lock no other push was
raised. So a registration that comes in between is the only thing that the push can race. -/
theorem closing_run {handle : ℤ} {events : List RhpEvent} (hidle : s.closing = none)
    (hrun : s.run events = some t) (hbusy : t.closing = some handle) :
    ∃ before middle, events = before ++ .closing handle :: middle ∧
      ∀ event ∈ middle, event.isPush = false := by
  refine run_induction (I := fun log u => ∀ handle, u.closing = some handle →
    ∃ before middle, log = before ++ .closing handle :: middle ∧
      ∀ event ∈ middle, event.isPush = false) ?_ ?_ hrun handle hbusy
  · intro h hs
    rw [hidle] at hs
    cases hs
  · intro log u event v hI hstep h hv
    -- a task or a reader leaves the client where it is
    have hgoes : u.closing = some h → event.isPush = false →
        ∃ before middle, log ++ [event] = before ++ .closing h :: middle ∧
          ∀ e ∈ middle, e.isPush = false := by
      intro hu hevent
      obtain ⟨before, middle, rfl, hmiddle⟩ := hI h hu
      refine ⟨before, middle ++ [event], by simp, fun e he => ?_⟩
      rcases List.mem_append.mp he with he | he
      · exact hmiddle e he
      · rw [List.mem_singleton.mp he]
        exact hevent
    cases move_step hstep with
    | accepted child remote hfree => cases hfree.symm.trans hv
    | received handle data hfree => cases hfree.symm.trans hv
    | closing handle hfree =>
      cases hv
      exact ⟨log, [], rfl, by simp⟩
    | closed handle hbusy => cases hv
    | opened handle remote => exact hgoes hv rfl
    | closeChild handle => exact hgoes hv rfl
    | read id answer c c' hc hreceive => exact hgoes hv rfl

end Attachment

end Convers
