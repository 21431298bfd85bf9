import Convers.Host.RhpNodeLink

/-!
# The life of one handle

`Convers.ChildStream` is the life of one handle as its reader sees it: data that is put aside,
then a connection to which it is written, then the end of the stream. What happens on other
handles does not show (`Convers.ChildStream.SameOn`), and every run of the link follows it
(`Convers.Attachment.follows_run`), whatever the pushes, the tasks and the readers do in what
order.
-/

namespace Convers

/-- The life of one handle. -/
inductive ChildStream where
  /-- No connection yet; what is put aside for it. -/
  | unknown (stash : List (List UInt8))
  /-- What was written to the connection, and whether the stream has ended. -/
  | known (written : List (List UInt8)) (ended : Bool)
  /-- The handle was given out again. -/
  | reused
  deriving DecidableEq

namespace ChildStream

/-- What an event is in the life of a handle. -/
def step (handle : ℤ) (stream : ChildStream) (event : RhpEvent) : ChildStream :=
  match stream with
  | unknown stash =>
    if event.registers handle then known stash false
    else if event = .closing handle then unknown []
    else unknown (stash ++ (event.dataOn handle).toList)
  | known written false =>
    if event.registers handle then reused
    else if event = .closed handle ∨ event = .closeChild handle then known written true
    else known (written ++ (event.dataOn handle).toList) false
  | known written true => if event.registers handle then reused else known written true
  | reused => reused

section Steps

variable (handle : ℤ) (data : List (List UInt8)) (ended : Bool)

@[simp] theorem step_unknown_closing :
    step handle (unknown data) (.closing handle) = unknown [] := by
  simp [step, RhpEvent.registers]

@[simp] theorem step_known_closing :
    step handle (known data ended) (.closing handle) = known data ended := by
  cases ended <;> simp [step, RhpEvent.registers, RhpEvent.dataOn]

@[simp] theorem step_unknown_closed :
    step handle (unknown data) (.closed handle) = unknown data := by
  simp [step, RhpEvent.registers, RhpEvent.dataOn]

@[simp] theorem step_known_closed :
    step handle (known data ended) (.closed handle) = known data true := by
  cases ended <;> simp [step, RhpEvent.registers]

end Steps

/-! ### One life after another -/

variable {handle : ℤ} {events : List RhpEvent}

/-- Until the connection is there, the data is put aside. -/
theorem foldl_unknown (stash : List (List UInt8))
    (hregisters : ∀ event ∈ events, event.registers handle = false)
    (hclosing : .closing handle ∉ events) :
    events.foldl (step handle) (unknown stash) = unknown (stash ++ receivedOn handle events) := by
  induction events generalizing stash with
  | nil => rw [List.foldl_nil, receivedOn, List.filterMap_nil, List.append_nil]
  | cons event events ih =>
    have hnot : event ≠ .closing handle := fun h => hclosing (h ▸ List.mem_cons_self)
    have hstep : step handle (unknown stash) event =
        unknown (stash ++ (event.dataOn handle).toList) := by
      rw [step, hregisters event List.mem_cons_self, if_neg Bool.false_ne_true, if_neg hnot]
    rw [List.foldl_cons, hstep, ih _ (fun e he => hregisters e (List.mem_cons_of_mem _ he))
      fun he => hclosing (List.mem_cons_of_mem _ he)]
    rw [List.append_assoc, receivedOn, receivedOn, List.filterMap_cons]
    cases event.dataOn handle <;> rfl

/-- Once it is there, the data is written to it. -/
theorem foldl_known (written : List (List UInt8))
    (hregisters : ∀ event ∈ events, event.registers handle = false)
    (hclosed : .closed handle ∉ events) (hclose : .closeChild handle ∉ events) :
    events.foldl (step handle) (known written false) =
      known (written ++ receivedOn handle events) false := by
  induction events generalizing written with
  | nil => rw [List.foldl_nil, receivedOn, List.filterMap_nil, List.append_nil]
  | cons event events ih =>
    have hnot : ¬ (event = .closed handle ∨ event = .closeChild handle) := by
      rintro (rfl | rfl)
      · exact hclosed List.mem_cons_self
      · exact hclose List.mem_cons_self
    have hstep : step handle (known written false) event =
        known (written ++ (event.dataOn handle).toList) false := by
      rw [step, hregisters event List.mem_cons_self, if_neg Bool.false_ne_true, if_neg hnot]
    rw [List.foldl_cons, hstep, ih _ (fun e he => hregisters e (List.mem_cons_of_mem _ he))
      (fun he => hclosed (List.mem_cons_of_mem _ he))
      fun he => hclose (List.mem_cons_of_mem _ he)]
    rw [List.append_assoc, receivedOn, receivedOn, List.filterMap_cons]
    cases event.dataOn handle <;> rfl

/-- After its end nothing is written to it. -/
theorem foldl_ended (written : List (List UInt8))
    (hregisters : ∀ event ∈ events, event.registers handle = false) :
    events.foldl (step handle) (known written true) = known written true := by
  induction events with
  | nil => rfl
  | cons event events ih =>
    have hstep : step handle (known written true) event = known written true := by
      rw [step, hregisters event List.mem_cons_self, if_neg Bool.false_ne_true]
    rw [List.foldl_cons, hstep]
    exact ih fun e he => hregisters e (List.mem_cons_of_mem _ he)

theorem receivedOn_append (handle : ℤ) (events events' : List RhpEvent) :
    receivedOn handle (events ++ events') =
      receivedOn handle events ++ receivedOn handle events' :=
  List.filterMap_append

/-- **Nothing is lost at the registration**: what was put aside is written first. The stream of a
child is so the data of its life, from the first byte on. -/
theorem foldl_registered (stash : List (List UInt8))
    (hregistered : events.countP (·.registers handle) = 1) (hclosing : .closing handle ∉ events)
    (hclosed : .closed handle ∉ events) (hclose : .closeChild handle ∉ events) :
    events.foldl (step handle) (unknown stash) =
      known (stash ++ receivedOn handle events) false := by
  obtain ⟨event, hmem, hevent⟩ := List.countP_pos_iff.mp
    (hregistered ▸ Nat.one_pos : 0 < events.countP (·.registers handle))
  obtain ⟨before, after, rfl⟩ := List.append_of_mem hmem
  rw [List.countP_append, List.countP_cons, if_pos hevent] at hregistered
  have hnone : ∀ l : List RhpEvent, l.countP (·.registers handle) = 0 →
      ∀ e ∈ l, e.registers handle = false := fun l hl e he =>
    Bool.eq_false_iff.mpr (List.countP_eq_zero.mp hl e he)
  have hbefore := hnone before (by omega)
  have hafter := hnone after (by omega)
  have hdata : event.dataOn handle = none := by
    cases event with
    | received h data => cases hevent
    | _ => rfl
  have hstep : ∀ stash, step handle (unknown stash) event = known stash false := by
    intro stash
    rw [step, if_pos hevent]
  rw [List.foldl_append, List.foldl_cons,
    foldl_unknown stash hbefore fun h => hclosing (List.mem_append_left _ h), hstep,
    foldl_known _ hafter
      (fun h => hclosed (List.mem_append_right _ (List.mem_cons_of_mem _ h)))
      fun h => hclose (List.mem_append_right _ (List.mem_cons_of_mem _ h)),
    receivedOn_append, ← List.singleton_append, receivedOn_append, List.append_assoc]
  simp [receivedOn, hdata]

end ChildStream

/-- What is none of its business does not change the life of a handle. -/
theorem ChildStream.step_of_other {handle : ℤ} {event : RhpEvent} (stream : ChildStream)
    (hregisters : event.registers handle = false) (hclosing : event ≠ .closing handle)
    (hclosed : event ≠ .closed handle) (hclose : event ≠ .closeChild handle)
    (hdata : event.dataOn handle = none) : stream.step handle event = stream := by
  rcases stream with stash | ⟨written, _ | _⟩ | _ <;>
    simp [step, hregisters, hclosing, hclosed, hclose, hdata]

/-! ### The run follows the life -/

namespace ChildStream

variable {base : ℕ} {handle : ℤ} {log : List RhpEvent} {event : RhpEvent} {s t : Attachment}
  {l l' : RhpNodeLink} {stream : ChildStream}

/-- The connection of a handle, among those made since some moment. -/
structure Only (base : ℕ) (handle : ℤ) (l : RhpNodeLink) (id : ℕ) (c : RhpChildConnection) :
    Prop where
  since : base ≤ id
  connection : l.connections[id]? = some c
  handle_eq : c.handle = handle
  only : ∀ i d, base ≤ i → l.connections[i]? = some d → d.handle = handle → i = id

/-- **The link is where the life of a handle is.** What the reader of the connection was given,
with what is not read yet, is what was written to it; the end of the stream comes last. -/
def Follows (base : ℕ) (handle : ℤ) (log : List RhpEvent) (l : RhpNodeLink) : ChildStream → Prop
  | unknown stash => l.children.get? handle = none ∧ l.pendingOf handle = stash ∧
      ∀ i d, base ≤ i → l.connections[i]? = some d → d.handle ≠ handle
  | known written ended => ∃ id c given n, Only base handle l id c ∧
      l.children.get? handle = (if ended then none else some id) ∧ c.completed = ended ∧
        answersTo id log = given.map some ++ List.replicate n none ∧
          written = given ++ c.inbound ∧ (0 < n → ended = true ∧ c.inbound = [])
  | reused => True

/-- The connections of a handle made since some moment are the same. -/
structure SameOn (base : ℕ) (handle : ℤ) (l l' : RhpNodeLink) : Prop where
  children : l'.children.get? handle = l.children.get? handle
  connections : ∀ i d, base ≤ i → d.handle = handle →
    (l'.connections[i]? = some d ↔ l.connections[i]? = some d)

theorem sameOn_of_eq (hchildren : l'.children = l.children)
    (hconnections : l'.connections = l.connections) : SameOn base handle l l' :=
  ⟨by rw [hchildren], fun i d _ _ => by rw [hconnections]⟩

theorem SameOn.only {id : ℕ} {c : RhpChildConnection} (hsame : SameOn base handle l l')
    (h : Only base handle l id c) : Only base handle l' id c where
  since := h.since
  connection := (hsame.connections id c h.since h.handle_eq).mpr h.connection
  handle_eq := h.handle_eq
  only i d hi hd hh := h.only i d hi ((hsame.connections i d hi hh).mp hd) hh

/-- Only the connections of the handle, and what is put aside for it, matter. -/
theorem Follows.of_sameOn (hf : Follows base handle log l stream)
    (hsame : SameOn base handle l l') (hpending : l'.pendingOf handle = l.pendingOf handle) :
    Follows base handle log l' stream := by
  rcases stream with stash | ⟨written, ended⟩ | _
  · obtain ⟨hchild, hstash, hnone⟩ := hf
    refine ⟨hsame.children.trans hchild, hpending.trans hstash, fun i d hi hd hh => ?_⟩
    exact hnone i d hi ((hsame.connections i d hi hh).mp hd) hh
  · obtain ⟨id, c, given, n, honly, hchild, hrest⟩ := hf
    exact ⟨id, c, given, n, hsame.only honly, hsame.children.trans hchild, hrest⟩
  · trivial

theorem answersTo_append (id : ℕ) (log : List RhpEvent) (event : RhpEvent) :
    answersTo id (log ++ [event]) = answersTo id log ++ (event.answerTo id).toList := by
  rw [answersTo, List.filterMap_append]
  cases h : event.answerTo id <;> simp [h, answersTo]

/-- **What happens elsewhere does not show.** Handles are reused, so what is elsewhere has to be
told by the connection too. -/
theorem Follows.elsewhere (hf : Follows base handle log l stream)
    (hsame : SameOn base handle l l')
    (hpending : ∀ stash, stream = unknown stash → l'.pendingOf handle = l.pendingOf handle)
    (hquiet : ∀ i d, base ≤ i → l.connections[i]? = some d → d.handle = handle →
      event.answerTo i = none) :
    Follows base handle (log ++ [event]) l' stream := by
  rcases stream with stash | ⟨written, ended⟩ | _
  · obtain ⟨hchild, hstash, hnone⟩ := hf
    refine ⟨hsame.children.trans hchild, (hpending stash rfl).trans hstash,
      fun i d hi hd hh => ?_⟩
    exact hnone i d hi ((hsame.connections i d hi hh).mp hd) hh
  · obtain ⟨id, c, given, n, honly, hchild, hcompleted, hanswers, hwritten, hend⟩ := hf
    refine ⟨id, c, given, n, hsame.only honly, hsame.children.trans hchild, hcompleted, ?_,
      hwritten, hend⟩
    rw [answersTo_append, hquiet id c honly.since honly.connection honly.handle_eq,
      Option.toList_none, List.append_nil, hanswers]
  · trivial

/-- A handle whose stream has ended has no child. -/
theorem Follows.children_of_ended {written : List (List UInt8)}
    (hf : Follows base handle log l (known written true)) : l.children.get? handle = none := by
  obtain ⟨id, c, given, n, honly, hchild, -⟩ := hf
  exact hchild

/-- Another connection changes. -/
theorem sameOn_replace {id : ℕ} {c c' : RhpChildConnection}
    (hc : l.connections[id]? = some c) (hkeep : c'.handle = c.handle)
    (hother : id < base ∨ c.handle ≠ handle) : SameOn base handle l (l.replace id c') := by
  refine ⟨rfl, fun i d hi hd => ?_⟩
  rcases eq_or_ne id i with rfl | hne
  · rcases hother with hlt | hother
    · omega
    · rw [RhpNodeLink.getElem?_replace_self hc, hc]
      constructor
      · rintro ⟨⟩
        exact absurd (hkeep.symm.trans hd) hother
      · rintro ⟨⟩
        exact absurd hd hother
  · rw [RhpNodeLink.getElem?_replace_of_ne hne]

/-- **A registration** begins the life of a handle, or ends what can be said of it. A second
registration of a handle in use is answered by another connection. -/
theorem Follows.registerChild (hf : Follows base handle log s.link stream)
    (hbase : base ≤ s.link.connections.length)
    (hfresh : ∀ i, s.link.connections.length ≤ i → answersTo i log = []) (child : ℤ)
    (remote : Text) (hregisters : event.registers handle = decide (child = handle))
    (hanswer : ∀ i, event.answerTo i = none) (hdata : event.dataOn handle = none)
    (hclosing : event ≠ .closing handle) (hclosed : event ≠ .closed handle)
    (hclose : event ≠ .closeChild handle) :
    Follows base handle (log ++ [event]) (s.link.registerChild (.new child remote))
      (stream.step handle event) := by
  rcases eq_or_ne child handle with rfl | hne
  · have hregisters : event.registers child = true := by rw [hregisters, decide_eq_true rfl]
    rcases stream with stash | ⟨written, _ | _⟩ | _
    · obtain ⟨hchild, rfl, hnone⟩ := hf
      rw [step, if_pos hregisters]
      -- the registration delivers what was put aside, so the stash becomes the inbound queue
      have hnew : (s.link.registerChild (.new child remote)).connections =
          s.link.connections ++
            [{ RhpChildConnection.new child remote with inbound := s.link.pendingOf child }] := by
        rw [RhpNodeLink.registerChild, RhpChildConnection.foldl_deliver _ rfl]
        rfl
      refine ⟨s.link.connections.length,
        { RhpChildConnection.new child remote with inbound := s.link.pendingOf child }, [], 0,
        ⟨hbase, ?_, rfl, fun i d hi hd hh => ?_⟩, ?_, rfl, ?_, rfl,
        fun hpos => absurd hpos (lt_irrefl 0)⟩
      · rw [hnew]
        exact List.getElem?_concat_length
      · rw [hnew] at hd
        by_contra hneq
        rcases Nat.lt_or_ge i s.link.connections.length with hlt | hge
        · rw [List.getElem?_append_left hlt] at hd
          exact hnone i d hi hd hh
        · rw [List.getElem?_eq_none (by simp; omega)] at hd
          cases hd
      · rw [RhpNodeLink.registerChild, Table.Dict.get?_set]
        exact if_pos rfl
      · rw [answersTo_append, hfresh _ le_rfl, hanswer]
        rfl
    · rw [step, if_pos hregisters]
      trivial
    · rw [step, if_pos hregisters]
      trivial
    · trivial
  · rw [step_of_other stream (hregisters.trans (decide_eq_false hne)) hclosing hclosed hclose hdata]
    -- another handle: neither its stash nor its connection is touched
    refine hf.elsewhere ⟨?_, fun i d hi hd => ?_⟩
      (fun _ _ => RhpNodeLink.pendingOf_remove.trans (if_neg (Ne.symm hne)))
      fun i d _ _ _ => hanswer i
    · rw [RhpNodeLink.registerChild, Table.Dict.get?_set]
      exact if_neg (Ne.symm hne)
    · rw [RhpNodeLink.registerChild]
      dsimp only
      rcases Nat.lt_or_ge i s.link.connections.length with hlt | hge
      · rw [List.getElem?_append_left hlt]
      · rw [List.getElem?_eq_none hge, List.getElem?_append_right hge,
          RhpChildConnection.foldl_deliver _ rfl]
        refine ⟨fun h => ?_, by rintro ⟨⟩⟩
        have hmem := List.mem_of_getElem? h
        rw [List.mem_singleton] at hmem
        rw [hmem] at hd
        exact absurd hd hne

/-- The connection of a handle is written to, marked or read. -/
theorem Follows.replace {id : ℕ} {c : RhpChildConnection} {children : Table.Dict ℤ ℕ}
    (c' : RhpChildConnection) (given : List (List UInt8)) (n : ℕ) (honly : Only base handle l id c)
    (hkeep : c'.handle = c.handle)
    (hchild : children.get? handle = if c'.completed then none else some id)
    (hanswers : answersTo id (log ++ [event]) = given.map some ++ List.replicate n none)
    (hend : 0 < n → c'.completed = true ∧ c'.inbound = []) :
    Follows base handle (log ++ [event]) { l.replace id c' with children := children }
      (known (given ++ c'.inbound) c'.completed) := by
  refine ⟨id, c', given, n, ⟨honly.since, RhpNodeLink.getElem?_replace_self honly.connection,
    hkeep.trans honly.handle_eq, fun i d hi hd hh => ?_⟩, hchild, rfl, hanswers, rfl, hend⟩
  by_contra hne
  have hd : (l.replace id c').connections[i]? = some d := hd
  rw [RhpNodeLink.getElem?_replace_of_ne (Ne.symm hne)] at hd
  exact hne (honly.only i d hi hd hh)

/-- **Data on the handle.** It is put aside, written to the child, or dropped, by the state of the
life. -/
theorem Follows.onReceived (hf : Follows base handle log l stream) (hl : l.Wired) (h : ℤ)
    (data : List UInt8) :
    Follows base handle (log ++ [.received h data]) (l.onReceived h data)
      (stream.step handle (.received h data)) := by
  rcases eq_or_ne h handle with rfl | hne
  · have hdata : (RhpEvent.received h data).dataOn h = some data := if_pos rfl
    rcases stream with stash | ⟨written, _ | _⟩ | _
    · obtain ⟨hchild, rfl, hnone⟩ := hf
      rw [RhpNodeLink.onReceived_of_none data hchild]
      refine ⟨hchild, ?_, hnone⟩
      rw [RhpNodeLink.pendingOf_set, if_pos rfl, hdata]
      rfl
    · obtain ⟨id, c, given, n, honly, hchild, hcompleted, hanswers, rfl, hend⟩ := hf
      -- the child is open, and the end of its stream was not read
      rw [RhpNodeLink.onReceived_of_child data hchild honly.connection,
        c.deliver_of_open hcompleted]
      obtain rfl : n = 0 := Nat.eq_zero_of_not_pos fun hpos => by cases (hend hpos).1
      have hstep : (known (given ++ c.inbound) false).step h (.received h data) =
          known (given ++ (c.inbound ++ [data])) c.completed := by
        rw [step, hdata, hcompleted, if_neg (by simp [RhpEvent.registers]), if_neg (by simp),
          List.append_assoc]
        rfl
      rw [hstep]
      refine Follows.replace { c with inbound := c.inbound ++ [data] } given 0 honly rfl
        ?_ ?_ fun hpos => absurd hpos (lt_irrefl 0)
      · rw [hchild, hcompleted]
      · rw [answersTo_append, hanswers]
        exact List.append_nil _
    · rw [RhpNodeLink.onReceived_of_none data hf.children_of_ended]
      exact hf.elsewhere (sameOn_of_eq rfl rfl) nofun fun _ _ _ _ _ => rfl
    · trivial
  · have hdata : (RhpEvent.received h data).dataOn handle = none := if_neg hne
    have hstep : stream.step handle (.received h data) = stream :=
      step_of_other stream rfl nofun nofun nofun hdata
    rw [hstep]
    rcases hchild : l.children.get? h with _ | id
    · rw [RhpNodeLink.onReceived_of_none data hchild]
      refine hf.elsewhere (sameOn_of_eq rfl rfl) (fun _ _ => ?_) fun _ _ _ _ _ => rfl
      rw [RhpNodeLink.pendingOf_set, if_neg (Ne.symm hne)]
    · obtain ⟨c, hc, hh⟩ := hl h id hchild
      rw [RhpNodeLink.onReceived_of_child data hchild hc]
      exact hf.elsewhere (sameOn_replace hc (c.handle_deliver data)
        (Or.inr fun heq => hne (hh.symm.trans heq))) (fun _ _ => rfl) fun _ _ _ _ _ => rfl

/-- **The lock of a close push.** What was put aside is gone, and the child is still there: the two
locks are apart. -/
theorem Follows.forgetPending (hf : Follows base handle log l stream) (h : ℤ) :
    Follows base handle (log ++ [.closing h]) (l.forgetPending h)
      (stream.step handle (.closing h)) := by
  rcases eq_or_ne h handle with rfl | hne
  · rcases stream with stash | ⟨written, _ | _⟩ | _
    · obtain ⟨hchild, -, hnone⟩ := hf
      rw [step, if_neg (by simp [RhpEvent.registers]), if_pos rfl]
      refine ⟨hchild, ?_, hnone⟩
      exact RhpNodeLink.pendingOf_remove.trans (if_pos rfl)
    · have hstep : (known written false).step h (.closing h) = known written false := by
        rw [step, if_neg (by simp [RhpEvent.registers]), if_neg (by simp)]
        simp [RhpEvent.dataOn]
      rw [hstep]
      exact hf.elsewhere (sameOn_of_eq rfl rfl) nofun fun _ _ _ _ _ => rfl
    · exact hf.elsewhere (sameOn_of_eq rfl rfl) nofun fun _ _ _ _ _ => rfl
    · trivial
  -- another handle's pending data are forgotten
  · have hstep : stream.step handle (.closing h) = stream :=
      step_of_other stream rfl (by simp [hne]) nofun nofun rfl
    rw [hstep]
    exact hf.elsewhere (sameOn_of_eq rfl rfl)
      (fun _ _ => RhpNodeLink.pendingOf_remove.trans (if_neg (Ne.symm hne)))
      fun _ _ _ _ _ => rfl

/-- **The child of a handle is taken off**, by a close push or by us. What the connection holds can
still be read, as its channel is completed and not emptied. -/
theorem Follows.dropChild (hf : Follows base handle log l stream) (hl : l.Wired) (h : ℤ)
    (hevent : event = .closed h ∨ event = .closeChild h) :
    Follows base handle (log ++ [event]) (l.dropChild h) (stream.step handle event) := by
  have hregisters : event.registers handle = false := by
    rcases hevent with rfl | rfl <;> rfl
  have hanswer : ∀ i, event.answerTo i = none := by
    rcases hevent with rfl | rfl <;> exact fun _ => rfl
  have hdata : event.dataOn handle = none := by
    rcases hevent with rfl | rfl <;> rfl
  have hclosing : event ≠ .closing handle := by
    rcases hevent with rfl | rfl <;> nofun
  rcases eq_or_ne h handle with rfl | hne
  · rcases stream with stash | ⟨written, _ | _⟩ | _
    · have hstep : (unknown stash).step h event = unknown stash := by
        simp [step, hregisters, hclosing, hdata]
      rw [hstep, RhpNodeLink.dropChild_of_none hf.1]
      exact hf.elsewhere (sameOn_of_eq rfl rfl) (fun _ _ => rfl) fun i _ _ _ _ => hanswer i
    · obtain ⟨id, c, given, n, honly, hchild, hcompleted, hanswers, rfl, hend⟩ := hf
      have hstep : (known (given ++ c.inbound) false).step h event =
          known (given ++ c.inbound) true := by
        rw [step, hregisters, if_neg Bool.false_ne_true, if_pos hevent]
      rw [hstep, RhpNodeLink.dropChild_of_child hchild honly.connection]
      refine Follows.replace c.markClosed given n honly c.handle_markClosed ?_ ?_
        fun hpos => ⟨rfl, (hend hpos).2⟩
      · rw [Table.Dict.get?_remove]
        exact if_pos rfl
      · rw [answersTo_append, hanswer, hanswers]
        exact List.append_nil _
    · have hstep : (known written true).step h event = known written true := by
        rw [step, hregisters, if_neg Bool.false_ne_true]
      rw [hstep, RhpNodeLink.dropChild_of_none hf.children_of_ended]
      exact hf.elsewhere (sameOn_of_eq rfl rfl) nofun fun i _ _ _ _ => hanswer i
    · trivial
  · have hstep : stream.step handle event = stream := by
      refine step_of_other stream hregisters hclosing ?_ ?_ hdata <;>
        rcases hevent with rfl | rfl <;> simp [hne]
    rw [hstep]
    rcases hchild : l.children.get? h with _ | id
    · rw [RhpNodeLink.dropChild_of_none hchild]
      exact hf.elsewhere (sameOn_of_eq rfl rfl) (fun _ _ => rfl) fun i _ _ _ _ => hanswer i
    · obtain ⟨c, hc, hh⟩ := hl h id hchild
      rw [RhpNodeLink.dropChild_of_child hchild hc]
      have hsame : SameOn base handle l (l.replace id c.markClosed) :=
        sameOn_replace hc c.handle_markClosed (Or.inr fun heq => hne (hh.symm.trans heq))
      refine hf.elsewhere ⟨?_, hsame.connections⟩ (fun _ _ => rfl) fun i _ _ _ _ => hanswer i
      rw [Table.Dict.get?_remove]
      exact if_neg (Ne.symm hne)

/-- **A read.** What is read is the beginning of what the life has written. -/
theorem Follows.read (hf : Follows base handle log l stream) {id : ℕ}
    {answer : Option (List UInt8)} {c c' : RhpChildConnection} (hc : l.connections[id]? = some c)
    (hreceive : c.receive = some (answer, c')) :
    Follows base handle (log ++ [.read id answer]) (l.replace id c')
      (stream.step handle (.read id answer)) := by
  have hkeep := RhpChildConnection.handle_of_receive hreceive
  have hstep : stream.step handle (.read id answer) = stream :=
    step_of_other stream rfl nofun nofun nofun rfl
  rw [hstep]
  by_cases hours : base ≤ id ∧ c.handle = handle
  · rcases stream with stash | ⟨written, ended⟩ | _
    · exact absurd hours.2 (hf.2.2 id c hours.1 hc)
    · obtain ⟨i, d, given, n, honly, hchild, hcompleted, hanswers, rfl, hend⟩ := hf
      obtain rfl := honly.only id c hours.1 hc hours.2
      cases honly.connection.symm.trans hc
      have hanswered : answersTo id (log ++ [.read id answer]) =
          (given.map some ++ List.replicate n none) ++ [answer] := by
        rw [answersTo_append, hanswers, RhpEvent.answerTo, if_pos rfl]
        rfl
      unfold RhpChildConnection.receive at hreceive
      split at hreceive
      · rename_i data inbound hinbound
        cases hreceive
        -- data are left, so the end of the stream was not read yet
        obtain rfl : n = 0 := Nat.eq_zero_of_not_pos fun hpos => by
          cases (hend hpos).2.symm.trans hinbound
        have hmoved : given ++ data :: inbound = (given ++ [data]) ++ inbound := by simp
        rw [hinbound, hmoved, ← hcompleted]
        refine Follows.replace { c with inbound := inbound } (given ++ [data]) 0 honly rfl ?_ ?_
          fun hpos => absurd hpos (lt_irrefl 0)
        · rw [hchild, hcompleted]
        · rw [hanswered]
          simp
      · rename_i hinbound
        split at hreceive
        · rename_i hdone
          cases hreceive
          rw [← hcompleted]
          refine Follows.replace c given (n + 1) honly rfl ?_ ?_ fun _ => ⟨hdone, hinbound⟩
          · rw [hchild, hcompleted]
          · rw [hanswered, List.replicate_succ', List.append_assoc]
        · cases hreceive
    · trivial
  · refine hf.elsewhere (sameOn_replace hc hkeep ?_) (fun _ _ => rfl) fun i d hi hd hh => ?_
    · rcases Nat.lt_or_ge id base with hlt | hge
      · exact Or.inl hlt
      · exact Or.inr fun hh => hours ⟨hge, hh⟩
    · rw [RhpEvent.answerTo]
      refine if_neg ?_
      rintro rfl
      cases hc.symm.trans hd
      exact hours ⟨hi, hh⟩

/-- **A step of the link is a step of the life.** The abstract life has one step for each step of
the link that is about the handle. -/
theorem Follows.take (hf : Follows base handle log s.link stream) (hl : s.link.Wired)
    (hbase : base ≤ s.link.connections.length)
    (hfresh : ∀ i, s.link.connections.length ≤ i → answersTo i log = [])
    (hmove : s.Move event t) :
    Follows base handle (log ++ [event]) t.link (stream.step handle event) := by
  cases hmove with
  | accepted child remote =>
    have hregistered : Follows base handle (log ++ [.accepted child remote])
        (s.link.registerChild (.new child (remote.getD [])))
        (stream.step handle (.accepted child remote)) :=
      hf.registerChild hbase hfresh child _ rfl (fun _ => rfl) rfl nofun nofun nofun
    exact hregistered.of_sameOn ⟨rfl, fun i d hi hd => Iff.rfl⟩ rfl
  | received h data => exact hf.onReceived hl h data
  | closing h => exact hf.forgetPending h
  | closed h => exact hf.dropChild hl h (Or.inl rfl)
  | opened h remote =>
    exact hf.registerChild hbase hfresh h remote rfl (fun _ => rfl) rfl nofun nofun nofun
  | closeChild h => exact hf.dropChild hl h (Or.inr rfl)
  | read id answer c c' hc hreceive => exact hf.read hc hreceive

end ChildStream

namespace Attachment

variable {s t : Attachment} {handle : ℤ} {events log : List RhpEvent} {event : RhpEvent}

/-- A connection that is not there is not read. -/
theorem Move.fresh (hmove : s.Move event t)
    (hfresh : ∀ i, s.link.connections.length ≤ i → answersTo i log = []) :
    ∀ i, t.link.connections.length ≤ i → answersTo i (log ++ [event]) = [] := by
  intro i hi
  have hold : s.link.connections.length ≤ i := hmove.length_le.trans hi
  have hnone : event.answerTo i = none := by
    cases hmove with
    | read id answer c c' hc hreceive =>
      refine if_neg ?_
      rintro rfl
      rw [List.getElem?_eq_none hold] at hc
      cases hc
    | _ => rfl
  rw [ChildStream.answersTo_append, hfresh i hold, hnone]
  rfl

/-- **A handle that is free**: the client is not in the middle of a push, there is no child on
it, and nothing is put aside. -/
structure Free (handle : ℤ) (s : Attachment) : Prop where
  idle : s.closing = none
  children : s.link.children.get? handle = none
  pending : s.link.pendingOf handle = []

/-- **Every run follows the life of a handle that was free.** So what a reader gets in a run is read
off the events of the handle alone. -/
theorem follows_run (hl : s.link.Wired) (hfree : Free handle s) (hrun : s.run events = some t) :
    ChildStream.Follows s.link.connections.length handle events t.link
      (events.foldl (ChildStream.step handle) (.unknown [])) := by
  refine (run_induction (I := fun log u => u.link.Wired ∧
    s.link.connections.length ≤ u.link.connections.length ∧
    (∀ i, u.link.connections.length ≤ i → answersTo i log = []) ∧
    ChildStream.Follows s.link.connections.length handle log u.link
      (log.foldl (ChildStream.step handle) (.unknown []))) ?_ ?_ hrun).2.2.2
  · refine ⟨hl, le_rfl, fun _ _ => rfl, hfree.children, hfree.pending, fun i d hi hd => ?_⟩
    rw [List.getElem?_eq_none hi] at hd
    cases hd
  · rintro log u event v ⟨hwired, hbase, hfresh, hf⟩ hstep
    have hmove := move_step hstep
    refine ⟨hmove.wired hwired, hbase.trans hmove.length_le, hmove.fresh hfresh, ?_⟩
    rw [List.foldl_append]
    exact hf.take hwired hbase hfresh hmove

end Attachment

end Convers
