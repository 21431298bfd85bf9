import Convers.Host.Announce
import Convers.Host.InboundDemux

/-!
# The link password

A downstream peer presents the link password on a `/..PASS` line ahead of its `/..HOST`.
The demux hands that line to the session with the rest, the session keeps it with the
early content, and once the handshake is complete it is submitted as any other verb: the
loop passes it to every other host. So what is written to the others depends on the
password unless nobody else is connected by then (`Convers.Node.confidential_iff`).

Two runs that differ in the password only are compared state by state
(`Convers.Node.Twin`): the line can be on the transport of the session, in its early
content, or in the queue of the loop, and everything else is the same.
-/

namespace Convers

namespace Node

open HostLink (writtenTo enqueuedTo uplinkPeerId)

/-! ### What is to be shown -/

section Leaks

variable (n : Node) (label : Label) (peerId : Text)

/-- Another host than a peer is connected. -/
def HasOther : Prop := n.links.uplink = true ∨ ∃ other ∈ n.links.peers, other ≠ peerId

instance : Decidable (n.HasOther peerId) := inferInstanceAs (Decidable (_ ∨ _))

theorem hasOther_iff : n.HasOther peerId ↔ ∃ host ≠ .peer peerId, n.connected host := by
  constructor
  · rintro (huplink | ⟨other, hother, hne⟩)
    · exact ⟨.uplink, nofun, huplink⟩
    · exact ⟨.peer other, fun heq => hne (RemoteHost.peer.inj heq), hother⟩
  · rintro ⟨_ | other, hne, hconnected⟩
    · exact Or.inl hconnected
    · exact Or.inr ⟨other, hconnected, fun heq => hne (heq ▸ rfl)⟩

/-- A step deals with a password of the peer while another host is connected. -/
def Leaks : Prop :=
  (∃ p ∈ n.handled label, p.1 = .peer peerId ∧ p.2.verb = "PASS".toList) ∧ n.HasOther peerId

instance : Decidable (n.Leaks label peerId) :=
  inferInstanceAs (Decidable ((∃ p ∈ n.handled label, _) ∧ _))

end Leaks

/-- **The password of a connection is confidential** in a run: with another one in its place
the same is written to every other host, step by step, and no password of the peer is
passed on. -/
structure Confidential (n : Node) (now : DateTimeOffset) (lines lines' : List Text)
    (labels : List Label) : Prop where
  same : ∀ host ≠ .peer (peerIdOf (n.nextPeer + 1)),
    (Run.trace step n (.accept now lines :: labels)).map
        (fun p => writtenTo host (p.1.effects p.2)) =
      (Run.trace step n (.accept now lines' :: labels)).map
        (fun p => writtenTo host (p.1.effects p.2))
  silent : ∀ p ∈ Run.trace step n (.accept now lines :: labels), ∀ c,
    p.1.handled p.2 = some (.peer (peerIdOf (n.nextPeer + 1)), c) → c.verb = "PASS".toList →
      ∀ host ≠ .peer (peerIdOf (n.nextPeer + 1)), c ∉ writtenTo host (p.1.effects p.2)

/-! ### Two runs in step -/

/-- A line that presents a password. -/
def IsPass (line secret : Text) : Prop :=
  HostCommandCodec.tryParse line = .ok (some (.unknownHostCommand "PASS".toList secret))

theorem IsPass.parsed {line secret : Text} (h : IsPass line secret) :
    (HostCommandCodec.stripPrefix line).map HostCommandCodec.parseBody =
      some (.unknownHostCommand "PASS".toList secret) := by
  rw [IsPass, HostCommandCodec.tryParse_eq] at h
  exact Except.ok.inj h

theorem IsPass.contentOf {line secret : Text} (h : IsPass line secret) :
    PeerRelay.contentOf line = some (.unknownHostCommand "PASS".toList secret) :=
  PeerRelay.contentOf_eq_some.mpr ⟨h.parsed, rfl⟩

/-- What two runs may differ in: the password line of a peer, and its command. -/
structure Secrets where
  peerId : Text
  line : Text
  line' : Text
  secret : Text
  secret' : Text
  isPass : IsPass line secret
  isPass' : IsPass line' secret'

namespace Secrets

variable (d : Secrets)

/-- Two lines of a session that are the same, or the two password lines of the peer. -/
def Lines (id x y : Text) : Prop := x = y ∨ id = d.peerId ∧ x = d.line ∧ y = d.line'

/-- Two items of the queue that are the same, or the two passwords of the peer. -/
def Works (x y : HubWork) : Prop :=
  x = y ∨ x = .peer (.unknownHostCommand "PASS".toList d.secret) d.peerId ∧
    y = .peer (.unknownHostCommand "PASS".toList d.secret') d.peerId

/-- Two states of a session that differ in the password line only. -/
structure Sessions (s t : PeerSession) : Prop where
  id : s.id = t.id
  engine : s.engine = t.engine
  registered : s.registered = t.registered
  phase : s.phase = t.phase
  inbox : List.Forall₂ (d.Lines s.id) s.inbox t.inbox
  earlyContent : List.Forall₂ (d.Lines s.id) s.earlyContent t.earlyContent

theorem Sessions.refl (s : PeerSession) : d.Sessions s s :=
  ⟨rfl, rfl, rfl, rfl, List.forall₂_same.mpr fun _ _ => Or.inl rfl,
    List.forall₂_same.mpr fun _ _ => Or.inl rfl⟩

variable {d} in
/-- The two sessions go over to a phase. -/
theorem Sessions.enter {s t : PeerSession} (h : d.Sessions s t) (phase : SessionPhase) :
    d.Sessions { s with phase := phase } { t with phase := phase } :=
  ⟨h.id, h.engine, h.registered, rfl, h.inbox, h.earlyContent⟩

end Secrets

/-- **Two states that differ in the password only.** -/
structure Twin (d : Secrets) (m n : Node) : Prop where
  options : m.options = n.options
  hub : m.hub = n.hub
  uplink : m.uplink = n.uplink
  nextPeer : m.nextPeer = n.nextPeer
  sessions : Table.Related d.Sessions m.sessions n.sessions
  queue : List.Forall₂ d.Works m.queue n.queue

section Twin

variable {d : Secrets} {m n : Node} {label : Label}

/-- **Two steps alike**: the next states differ in the password only, and the same is written
to the other hosts. -/
structure Alike (d : Secrets) (r r' : Node × List HostLink.Effect) : Prop where
  twin : Twin d r.1 r'.1
  written : ∀ host ≠ .peer d.peerId, writtenTo host r.2 = writtenTo host r'.2

theorem Twin.links (h : Twin d m n) : m.links = n.links := by
  have hpeers : (m.sessions.records.filter PeerSession.registered).map PeerSession.id =
      (n.sessions.records.filter PeerSession.registered).map PeerSession.id :=
    h.sessions.map_filter (fun _ _ hst => hst.registered) fun _ _ hst => hst.id
  rw [Node.links, Node.links]
  simp only [h.uplink, hpeers]

theorem Twin.find? (h : Twin d m n) (id : Text) :
    (m.sessions.find? id = none ∧ n.sessions.find? id = none) ∨
      ∃ s t, m.sessions.find? id = some s ∧ n.sessions.find? id = some t ∧ d.Sessions s t :=
  h.sessions.find? (fun _ _ hst => hst.id) id

theorem Twin.putSession (h : Twin d m n) {s t : PeerSession} (hst : d.Sessions s t) :
    Twin d (m.putSession s) (n.putSession t) :=
  ⟨h.options, h.hub, h.uplink, h.nextPeer, h.sessions.put (fun _ _ hst => hst.id) hst, h.queue⟩

theorem Twin.endSession (h : Twin d m n) (id : Text) :
    Twin d (m.endSession id) (n.endSession id) :=
  ⟨h.options, h.hub, h.uplink, h.nextPeer, h.sessions.remove (fun _ _ hst => hst.id) id, h.queue⟩

theorem Twin.enqueueWork (h : Twin d m n) {x y : HubWork} (hxy : d.Works x y) :
    Twin d (m.enqueueWork x) (n.enqueueWork y) :=
  ⟨h.options, h.hub, h.uplink, h.nextPeer, h.sessions,
    List.rel_append h.queue (List.Forall₂.cons hxy List.Forall₂.nil)⟩

/-- The two lines are submitted. -/
theorem Twin.submitContent (h : Twin d m n) {id x y : Text} (hxy : d.Lines id x y) :
    Twin d (m.submitContent id x) (n.submitContent id y) := by
  rcases hxy with rfl | ⟨rfl, rfl, rfl⟩
  · rw [Node.submitContent, Node.submitContent]
    split
    · exact h.enqueueWork (Or.inl rfl)
    · exact h
  · rw [Node.submitContent, Node.submitContent, d.isPass.contentOf, d.isPass'.contentOf]
    exact h.enqueueWork (Or.inr ⟨rfl, rfl⟩)

/-- An engine makes nothing of a password but an event. -/
theorem IsPass.onLineReceived {line secret : Text} (h : IsPass line secret) (now : DateTimeOffset)
    (e : HostLinkEngine) :
    ∃ events, e.onLineReceived now line =
        .ok ({ e with lastInbound := now }, { EngineStep.none with hubEvents := events }) ∧
      ConversEvent.hostPing ∉ events := by
  rw [HostLinkEngine.onLineReceived_eq, h.parsed]
  rcases e.state with _ | _ | _
  · exact ⟨[], rfl, nofun⟩
  · exact ⟨[.hostUnknown (HostCommandCodec.format (.unknownHostCommand "PASS".toList secret))],
      rfl, by simp⟩
  · exact ⟨[.hostUnknown (HostCommandCodec.format (.unknownHostCommand "PASS".toList secret))],
      rfl, by simp⟩

/-- Nothing is sent to a peer on events that are no ping. -/
theorem applyPeerStep_events {events : List ConversEvent} (hping : ConversEvent.hostPing ∉ events)
    (peerId : Text) :
    applyPeerStep peerId { EngineStep.none with hubEvents := events } = [] := by
  have hnone : events.filter (· = ConversEvent.hostPing) = [] :=
    List.filter_eq_nil_iff.mpr fun event hevent heq => hping (of_decide_eq_true heq ▸ hevent)
  rw [applyPeerStep]
  simp only [hnone]
  rfl

/-- **An engine takes the two lines alike.** It never looks at the text of a verb it does not know.
-/
theorem Secrets.Lines.reads {id x y : Text} (h : d.Lines id x y) (now : DateTimeOffset)
    (e : HostLinkEngine) :
    (∃ fault, e.onLineReceived now x = .error fault ∧ e.onLineReceived now y = .error fault) ∨
      ∃ engine step step', e.onLineReceived now x = .ok (engine, step) ∧
        e.onLineReceived now y = .ok (engine, step') ∧ step.dropReason = step'.dropReason ∧
          step.handshakeCompleted = step'.handshakeCompleted ∧
            applyPeerStep id step = applyPeerStep id step' := by
  rcases h with rfl | ⟨rfl, rfl, rfl⟩
  · rcases e.onLineReceived now x with fault | ⟨engine, step⟩
    · exact Or.inl ⟨fault, rfl, rfl⟩
    · exact Or.inr ⟨engine, step, step, rfl, rfl, rfl, rfl, rfl⟩
  · obtain ⟨events, hread, hping⟩ := d.isPass.onLineReceived now e
    obtain ⟨events', hread', hping'⟩ := d.isPass'.onLineReceived now e
    refine Or.inr ⟨_, _, _, hread, hread', rfl, rfl, ?_⟩
    rw [applyPeerStep_events hping, applyPeerStep_events hping']

/-- The two lines are read. -/
theorem Twin.readLine (h : Twin d m n) {s t : PeerSession} (hst : d.Sessions s t) {x y : Text}
    (hxy : d.Lines s.id x y) (now : DateTimeOffset) :
    Alike d (m.readLine now s x) (n.readLine now t y) := by
  obtain ⟨id, engine, inbox, registered, early, phase⟩ := s
  obtain ⟨_, _, inbox', _, early', _⟩ := t
  obtain ⟨rfl, rfl, rfl, rfl, hinbox, hearly⟩ := hst
  have hgoes : ∀ e r p, d.Sessions ⟨id, e, inbox, r, early, p⟩ ⟨id, e, inbox', r, early', p⟩ :=
    fun _ _ _ => ⟨rfl, rfl, rfl, rfl, hinbox, hearly⟩
  rw [Node.readLine, Node.readLine]
  rcases hxy.reads now engine with
    ⟨fault, hx, hy⟩ | ⟨e, step, step', hx, hy, hdrop, hdone, heffects⟩
  · simp only [hx, hy]
    exact ⟨h.endSession id, fun _ _ => rfl⟩
  · simp only [hx, hy, ← hdrop, ← hdone, ← heffects]
    rcases step.dropReason with _ | reason
    · dsimp only
      split
      · exact ⟨(h.putSession (hgoes e true .awaitingSnapshot)).enqueueWork (Or.inl rfl),
          fun _ _ => rfl⟩
      · split
        · exact ⟨(h.putSession (hgoes e registered phase)).submitContent hxy, fun _ _ => rfl⟩
        · exact ⟨h.putSession ⟨rfl, rfl, rfl, rfl, hinbox,
            List.rel_append hearly (List.Forall₂.cons hxy List.Forall₂.nil)⟩, fun _ _ => rfl⟩
    · exact ⟨h.endSession id, fun _ _ => rfl⟩

/-- The two sessions go on. -/
theorem Twin.proceedSession (h : Twin d m n) {s t : PeerSession} (hst : d.Sessions s t) :
    Alike d (m.proceedSession s) (n.proceedSession t) := by
  obtain ⟨id, engine, inbox, registered, early, phase⟩ := s
  obtain ⟨_, _, inbox', _, early', _⟩ := t
  obtain ⟨rfl, rfl, rfl, rfl, hinbox, hearly⟩ := hst
  have hgoes : ∀ p, d.Sessions ⟨id, engine, inbox, registered, early, p⟩
      ⟨id, engine, inbox', registered, early', p⟩ :=
    fun _ => ⟨rfl, rfl, rfl, rfl, hinbox, hearly⟩
  rw [Node.proceedSession, Node.proceedSession]
  rcases phase with _ | _ | (_ | ⟨command, commands⟩)
  · exact ⟨h, fun _ _ => rfl⟩
  · exact ⟨h, fun _ _ => rfl⟩
  · rcases hearly with _ | @⟨x, y, xs, ys, hxy, hrest⟩
    · exact ⟨h.putSession (hgoes .receiving), fun _ _ => rfl⟩
    · have hgone : d.Sessions ⟨id, engine, inbox, registered, xs, .announcing []⟩
          ⟨id, engine, inbox', registered, ys, .announcing []⟩ :=
        ⟨rfl, rfl, rfl, rfl, hinbox, hrest⟩
      have hput := h.putSession hgone
      exact ⟨hput.submitContent hxy, fun _ _ => rfl⟩
  · exact ⟨h.putSession (hgoes (.announcing commands)), fun _ _ => rfl⟩

/-- The parts of the two states that are the same change together. -/
theorem Twin.replace (h : Twin d m n) (hub : Hub) (uplink : Option HostLinkEngine)
    {queue queue' : List HubWork} (hqueue : List.Forall₂ d.Works queue queue') :
    Twin d { m with hub := hub, uplink := uplink, queue := queue }
      { n with hub := hub, uplink := uplink, queue := queue' } :=
  ⟨h.options, rfl, rfl, h.nextPeer, h.sessions, hqueue⟩

/-- **The two passwords are dealt with alike** while nobody else is connected. The relay has nobody
to pass it on to, and the hub knows no such command. -/
theorem Twin.password (h : Twin d m n) (now : DateTimeOffset) (hne : d.peerId ≠ uplinkPeerId)
    (hother : ¬m.HasOther d.peerId) {queue queue' : List HubWork}
    (hqueue : List.Forall₂ d.Works queue queue') {secret secret' : Text} :
    let r := HostLink.applyPeerInbound m.links now m.hub
      (.unknownHostCommand "PASS".toList secret) d.peerId
    let r' := HostLink.applyPeerInbound n.links now n.hub
      (.unknownHostCommand "PASS".toList secret') d.peerId
    Alike d ({ m with hub := r.1, queue := queue }, r.2)
      ({ n with hub := r'.1, queue := queue' }, r'.2) := by
  intro r r'
  have hhub : r.1 = m.hub := HostLink.hub_applyPeerInbound _ _ _ _ _
  have hhub' : r'.1 = m.hub := (HostLink.hub_applyPeerInbound _ _ _ _ _).trans h.hub.symm
  have hnobody : ∀ host ≠ .peer d.peerId, ¬m.connected host := fun host hhost hconnected =>
    hother ((m.hasOther_iff d.peerId).mpr ⟨host, hhost, hconnected⟩)
  have hnobody' : ∀ host ≠ .peer d.peerId, ¬n.connected host := by
    rintro (_ | peerId) hhost
    · rw [connected, ← h.links]
      exact hnobody .uplink hhost
    · rw [connected, ← h.links]
      exact hnobody (.peer peerId) hhost
  refine ⟨?_, fun host hhost => ?_⟩
  · rw [hhub, hhub']
    exact ⟨h.options, rfl, h.uplink, h.nextPeer, h.sessions, hqueue⟩
  · have hwritten : writtenTo host r.2 = [] :=
      (writtenTo_applyPeerInbound rfl hne host).trans (if_neg fun hbad => hnobody host hhost hbad.2)
    have hwritten' : writtenTo host r'.2 = [] :=
      (writtenTo_applyPeerInbound rfl hne host).trans
        (if_neg fun hbad => hnobody' host hhost hbad.2)
    exact hwritten.trans hwritten'.symm

/-- **The loop takes the two items alike.** They are the same item, but for the secret in it. -/
theorem Twin.drain (h : Twin d m n) (horderly : m.Orderly) (now : DateTimeOffset)
    (hleak : ¬m.Leaks (.drain now) d.peerId) : Alike d (m.drain now) (n.drain now) := by
  have hqueue := h.queue
  rcases hm : m.queue with _ | ⟨x, xs⟩
  · rw [hm, List.forall₂_nil_left_iff] at hqueue
    rw [Node.drain, Node.drain, hm, hqueue]
    exact ⟨h, fun _ _ => rfl⟩
  · rw [hm, List.forall₂_cons_left_iff] at hqueue
    obtain ⟨y, ys, hxy, hrest, hn⟩ := hqueue
    rcases hxy with rfl | ⟨rfl, rfl⟩
    · rw [Node.drain, Node.drain, hm, hn]
      rcases x with event | peerId | ⟨command, originPeerId⟩
      · dsimp only
        rw [h.links, h.hub]
        exact ⟨⟨h.options, rfl, h.uplink, h.nextPeer, h.sessions, hrest⟩, fun _ _ => rfl⟩
      · have hleft : Twin d { m with queue := xs } { n with hub := m.hub, queue := ys } :=
          ⟨h.options, rfl, h.uplink, h.nextPeer, h.sessions, hrest⟩
        dsimp only
        rw [← h.hub]
        rcases h.find? peerId with ⟨hs, ht⟩ | ⟨s, t, hs, ht, hst⟩
        · rw [hs, ht]
          exact ⟨hleft, fun _ _ => rfl⟩
        · rw [hs, ht]
          dsimp only
          rw [← hst.phase]
          split
          · exact ⟨hleft.putSession (hst.enter _), fun _ _ => rfl⟩
          · exact ⟨hleft, fun _ _ => rfl⟩
      · dsimp only
        rw [h.links, h.hub]
        exact ⟨⟨h.options, rfl, h.uplink, h.nextPeer, h.sessions, hrest⟩, fun _ _ => rfl⟩
    · have hne : d.peerId ≠ uplinkPeerId :=
        (horderly.queue _ _ (by rw [hm]; exact List.mem_cons_self)).2
      have hhandled : m.handled (.drain now) =
          some (.peer d.peerId, .unknownHostCommand "PASS".toList d.secret) := by
        rw [handled, hm]
      have hother : ¬m.HasOther d.peerId := fun hother =>
        hleak ⟨⟨_, Option.mem_def.mpr hhandled, rfl, rfl⟩, hother⟩
      rw [Node.drain, Node.drain, hm, hn]
      exact h.password now hne hother hrest

/-- **A step of the two runs.** What is written is the same in both, as long as the password stays
where it is. -/
theorem Twin.next (h : Twin d m n) (horderly : m.Orderly) (hleak : ¬m.Leaks label d.peerId) :
    Alike d (m.next label) (n.next label) := by
  have hsame : Alike d (m, []) (n, []) := ⟨h, fun _ _ => rfl⟩
  cases label with
  | submit event => exact ⟨h.enqueueWork (Or.inl rfl), fun _ _ => rfl⟩
  | drain now => exact h.drain horderly now hleak
  | connect now =>
    rw [Node.next, Node.next, ← h.uplink, ← h.options]
    rcases m.uplink with _ | engine
    · rcases (HostLinkEngine.new m.options false).onConnected now with ⟨engine, step⟩
      have hbegun : Twin d { m with uplink := some engine }
          { n with options := m.options, uplink := some engine } :=
        ⟨rfl, h.hub, rfl, h.nextPeer, h.sessions, h.queue⟩
      dsimp only
      rw [hbegun.links, h.hub]
      exact ⟨⟨rfl, rfl, rfl, h.nextPeer, h.sessions, h.queue⟩, fun _ _ => rfl⟩
    · exact hsame
  | uplinkLine now line =>
    rw [Node.next, Node.next, ← h.uplink]
    rcases m.uplink with _ | engine
    · exact hsame
    · dsimp only
      rw [← h.links, ← h.hub]
      exact ⟨h.replace _ _ h.queue, fun _ _ => rfl⟩
  | uplinkTick now =>
    rw [Node.next, Node.next, ← h.uplink]
    rcases m.uplink with _ | engine
    · exact hsame
    · dsimp only
      rw [← h.links, ← h.hub]
      exact ⟨h.replace _ _ h.queue, fun _ _ => rfl⟩
  | uplinkLoss =>
    exact ⟨⟨h.options, h.hub, rfl, h.nextPeer, h.sessions, h.queue⟩, fun _ _ => rfl⟩
  | accept now lines =>
    rw [Node.next, Node.next, ← h.options, ← h.nextPeer]
    have hput := h.putSession (Secrets.Sessions.refl d ⟨peerIdOf (m.nextPeer + 1),
      ((HostLinkEngine.new m.options true).onAccepted now).1, lines, false, [], .receiving⟩)
    exact ⟨⟨hput.options, hput.hub, hput.uplink, rfl, hput.sessions, hput.queue⟩, fun _ _ => rfl⟩
  | arrive peerId line =>
    rw [Node.next, Node.next]
    rcases h.find? peerId with ⟨hs, ht⟩ | ⟨s, t, hs, ht, hst⟩
    · rw [hs, ht]
      exact hsame
    · rw [hs, ht]
      -- the same line comes in, behind inboxes that differ in the secret only
      exact ⟨h.putSession ⟨hst.id, hst.engine, hst.registered, hst.phase,
        List.rel_append hst.inbox (List.Forall₂.cons (Or.inl rfl) List.Forall₂.nil),
          hst.earlyContent⟩, fun _ _ => rfl⟩
  | read now peerId =>
    rw [Node.next, Node.next]
    rcases h.find? peerId with ⟨hs, ht⟩ | ⟨s, t, hs, ht, hst⟩
    · rw [hs, ht]
      exact hsame
    · rw [hs, ht]
      -- two sessions that agree but for their lines are one session with two inboxes
      obtain ⟨id, engine, inbox, registered, early, phase⟩ := s
      obtain ⟨_, _, inbox', _, early', _⟩ := t
      obtain ⟨rfl, rfl, rfl, rfl, hinbox, hearly⟩ := hst
      rcases phase with _ | _ | commands
      · rcases hinbox with _ | @⟨x, y, xs, ys, hxy, hrest⟩
        · exact hsame
        · have hleft : d.Sessions ⟨id, engine, xs, registered, early, .receiving⟩
              ⟨id, engine, ys, registered, early', .receiving⟩ :=
            ⟨rfl, rfl, rfl, rfl, hrest, hearly⟩
          exact h.readLine hleft hxy now
      · exact hsame
      · exact hsame
  | proceed peerId =>
    rw [Node.next, Node.next]
    rcases h.find? peerId with ⟨hs, ht⟩ | ⟨s, t, hs, ht, hst⟩
    · rw [hs, ht]
      exact hsame
    · rw [hs, ht]
      exact h.proceedSession hst
  | peerTick now peerId =>
    rw [Node.next, Node.next]
    rcases h.find? peerId with ⟨hs, ht⟩ | ⟨s, t, hs, ht, hst⟩
    · rw [hs, ht]
      exact hsame
    · rw [hs, ht]
      dsimp only
      rw [← hst.phase, ← hst.engine]
      split
      · split
        · exact ⟨h.endSession peerId, fun _ _ => rfl⟩
        · exact ⟨h.putSession ⟨hst.id, rfl, hst.registered, rfl, hst.inbox, hst.earlyContent⟩,
            fun _ _ => rfl⟩
      · exact hsame
  | peerLoss peerId =>
    rw [Node.next, Node.next]
    rcases h.find? peerId with ⟨hs, ht⟩ | ⟨s, t, hs, ht, hst⟩
    · rw [hs, ht]
      exact hsame
    · rw [hs, ht]
      dsimp only
      rw [← hst.phase]
      split
      · exact ⟨h.endSession peerId, fun _ _ => rfl⟩
      · exact hsame

end Twin

/-! ### What the others are written -/

section Confidential

variable {n : Node} {label : Label}

/-- **Content of a peer, in its turn, goes to every other host**. The password is content to the
relay, as its verb is unknown. -/
theorem Orderly.writtenTo_of_handled (h : n.Orderly) {origin : Text} {c : HostCommand}
    (hhandled : n.handled label = some (.peer origin, c)) (host : RemoteHost) :
    writtenTo host (n.effects label) =
      if host ≠ .peer origin ∧ n.connected host then [c] else [] := by
  cases label with
  | drain now =>
    have hrelayable : n.Relayable (.drain now) := nofun
    exact (h.relaysRight hrelayable).passed _ _ hhandled host
  | uplinkLine now line =>
    have huplink : n.received (.uplinkLine now line) = some (.peer origin, c) := hhandled
    obtain ⟨⟨heard, text⟩, hheard, hcontent⟩ := Option.bind_eq_some_iff.mp huplink
    obtain ⟨_, -, hpair⟩ := Option.map_eq_some_iff.mp hcontent
    obtain rfl : heard = .peer origin := congrArg Prod.fst hpair
    rw [Node.heard] at hheard
    split at hheard
    · cases hheard
    · cases hheard
  | _ => cases hhandled

/-- A step passes no password of the peer on exactly when it does not leak. -/
theorem Orderly.silent_iff (h : n.Orderly) (peerId : Text) :
    (∀ c, n.handled label = some (.peer peerId, c) → c.verb = "PASS".toList →
      ∀ host ≠ .peer peerId, c ∉ writtenTo host (n.effects label)) ↔ ¬n.Leaks label peerId := by
  constructor
  · rintro hsilent ⟨⟨⟨_, c⟩, hhandled, rfl, hverb⟩, hother⟩
    obtain ⟨host, hhost, hconnected⟩ := (n.hasOther_iff peerId).mp hother
    refine hsilent c hhandled hverb host hhost ?_
    rw [h.writtenTo_of_handled hhandled host, if_pos ⟨hhost, hconnected⟩]
    exact List.mem_singleton_self c
  · intro hleak c hhandled hverb host hhost hmem
    rw [h.writtenTo_of_handled hhandled host] at hmem
    split at hmem
    · rename_i hboth
      exact hleak ⟨⟨_, Option.mem_def.mpr hhandled, rfl, hverb⟩,
        (n.hasOther_iff peerId).mpr ⟨host, hhost, hboth.2⟩⟩
    · cases hmem

/-- The two runs start in step. -/
theorem twin_accept (n : Node) (now : DateTimeOffset) (d : Secrets)
    (hpeer : d.peerId = peerIdOf (n.nextPeer + 1)) (rest : List Text) :
    Alike d (n.next (.accept now (d.line :: rest))) (n.next (.accept now (d.line' :: rest))) := by
  have hrefl : Twin d n n := by
    refine ⟨rfl, rfl, rfl, rfl, Table.Related.refl (Secrets.Sessions.refl d) n.sessions, ?_⟩
    exact List.forall₂_same.mpr fun _ _ => Or.inl rfl
  rw [next, next]
  rcases (HostLinkEngine.new n.options true).onAccepted now with ⟨engine, step⟩
  have hlines : List.Forall₂ (d.Lines (peerIdOf (n.nextPeer + 1))) (d.line :: rest)
      (d.line' :: rest) :=
    List.Forall₂.cons (Or.inr ⟨hpeer.symm, rfl, rfl⟩)
      (List.forall₂_same.mpr fun _ _ => Or.inl rfl)
  have hsessions : d.Sessions
      ⟨peerIdOf (n.nextPeer + 1), engine, d.line :: rest, false, [], .receiving⟩
      ⟨peerIdOf (n.nextPeer + 1), engine, d.line' :: rest, false, [], .receiving⟩ :=
    ⟨rfl, rfl, rfl, rfl, hlines, List.Forall₂.nil⟩
  have hput := hrefl.putSession hsessions
  exact ⟨⟨rfl, rfl, rfl, rfl, hput.sessions, hput.queue⟩, fun _ _ => rfl⟩

variable (options : HostLinkOptions) (hub : Hub) (before labels : List Label)

/-- **The password is confidential exactly when nobody else is there**: of the runs of the host in
which a connection is admitted with a password, those in which the loop comes to no password of that
peer while another host is connected. What is compared are two runs that differ in the secret alone,
in everything that leaves the host. -/
theorem confidential_iff {policy : PeeringPolicy} {remoteCallsign line line' : Text}
    {rest lines lines' : List Text} (now : DateTimeOffset)
    (hpass : ∃ secret, IsPass line secret) (hpass' : ∃ secret, IsPass line' secret)
    (hadmitted : InboundDemux.peerLines policy remoteCallsign (line :: rest) = some lines)
    (hadmitted' : InboundDemux.peerLines policy remoteCallsign (line' :: rest) = some lines') :
    let n := Run.final step (Node.new options hub) before
    Confidential n now lines lines' labels ↔
      ∀ p ∈ Run.trace step n (.accept now lines :: labels),
        ¬p.1.Leaks p.2 (peerIdOf (n.nextPeer + 1)) := by
  intro n
  obtain rfl := InboundDemux.peerLines_eq_some hadmitted
  obtain rfl := InboundDemux.peerLines_eq_some hadmitted'
  have horderly : n.Orderly :=
    (Run.invariant (orderly_new options hub) before fun p _ h => h.step p.2).2
  have hall : ∀ p ∈ Run.trace step n (.accept now (line :: rest) :: labels), p.1.Orderly :=
    (Run.invariant horderly _ fun p _ h => h.step p.2).1
  constructor
  · intro h p hp
    exact ((hall p hp).silent_iff _).mp (h.silent p hp)
  · intro hleak
    refine ⟨fun host hhost => ?_, fun p hp => ((hall p hp).silent_iff _).mpr (hleak p hp)⟩
    obtain ⟨secret, hsecret⟩ := hpass
    obtain ⟨secret', hsecret'⟩ := hpass'
    let d : Secrets := ⟨peerIdOf (n.nextPeer + 1), line, line', secret, secret', hsecret, hsecret'⟩
    have hstart : Alike d (n.next (.accept now (line :: rest)))
        (n.next (.accept now (line' :: rest))) := twin_accept n now d rfl rest
    rw [Run.trace_cons, Run.trace_cons, List.map_cons, List.map_cons]
    refine congrArg₂ List.cons (hstart.written host hhost) ?_
    have hfirst : (n.step (.accept now (line :: rest))).Orderly := horderly.step _
    let outcome (m : Node) (label : Label) : List HostCommand := writtenTo host (m.effects label)
    refine @Run.map_trace_of_related _ _ step _ (fun m u => Twin d m u ∧ m.Orderly) outcome _ _
      ⟨hstart.twin, hfirst⟩ labels fun p hp u hu => ?_
    have halike : Alike d (p.1.next p.2) (u.next p.2) :=
      hu.1.next hu.2 (hleak p (List.mem_cons_of_mem _ hp))
    exact ⟨⟨halike.twin, hu.2.step p.2⟩, halike.written host hhost⟩

/-- A node with a password for its peers. -/
def exampleHost : Node :=
  Node.new (HostLinkOptions.ofHostName "NODE".toList) (Hub.fresh "NODE".toList)

def examplePolicy : PeeringPolicy := .new true ["gb7xyz".toList] (some "s3cret".toList)

/-- What a peer sends that presents a password. -/
def exampleLines (secret : Text) : List Text :=
  ["/..PASS ".toList ++ secret, "/..HOST GB7XYZ pdnconv1 amp".toList]

/-- The two lines are read, the handshake is complete, and the early content is submitted. -/
def exampleTurns : List Label :=
  let now := HostLinkEngine.defaultTime
  [.read now "peer-1".toList, .read now "peer-1".toList, .drain now, .proceed "peer-1".toList,
    .drain now]

/-- The parent is connected when all is over. -/
theorem confidential_exampleTurns :
    Confidential exampleHost HostLinkEngine.defaultTime (exampleLines "s3cret".toList)
      (exampleLines "xs3cretx".toList) (exampleTurns ++ [.connect HostLinkEngine.defaultTime]) := by
  have hpass : IsPass "/..PASS s3cret".toList "s3cret".toList := by
    unfold IsPass
    decide +kernel
  have hpass' : IsPass "/..PASS xs3cretx".toList "xs3cretx".toList := by
    unfold IsPass
    decide +kernel
  have hadmitted : InboundDemux.peerLines examplePolicy "GB7XYZ-1".toList
      ["/..PASS s3cret".toList, "/..HOST GB7XYZ pdnconv1 amp".toList] =
        some (exampleLines "s3cret".toList) := by
    decide +kernel
  have hadmitted' : InboundDemux.peerLines examplePolicy "GB7XYZ-1".toList
      ["/..PASS xs3cretx".toList, "/..HOST GB7XYZ pdnconv1 amp".toList] =
        some (exampleLines "xs3cretx".toList) := by
    decide +kernel
  exact (confidential_iff (HostLinkOptions.ofHostName "NODE".toList) (Hub.fresh "NODE".toList) []
    (exampleTurns ++ [.connect HostLinkEngine.defaultTime]) HostLinkEngine.defaultTime
      ⟨_, hpass⟩ ⟨_, hpass'⟩ hadmitted hadmitted').mpr (by decide +kernel)

/-- The parent is connected all along, and gets the password. It is content that came ahead of the
greeting of the peer. -/
theorem not_confidential_exampleTurns :
    let n := Run.final step exampleHost [.connect HostLinkEngine.defaultTime]
    InboundDemux.peerLines examplePolicy "GB7XYZ-1".toList (exampleLines "s3cret".toList) =
        some (exampleLines "s3cret".toList) ∧
      InboundDemux.peerLines examplePolicy "GB7XYZ-1".toList (exampleLines "xs3cretx".toList) =
        some (exampleLines "xs3cretx".toList) ∧
      ¬Confidential n HostLinkEngine.defaultTime (exampleLines "s3cret".toList)
        (exampleLines "xs3cretx".toList) exampleTurns := by
  intro n
  refine ⟨by decide +kernel, by decide +kernel, fun h => ?_⟩
  have hsame := h.same .uplink nofun
  revert hsame
  decide +kernel

end Confidential

end Node

end Convers
