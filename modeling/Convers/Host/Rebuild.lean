import Convers.Core.Entries
import Convers.Host.Announce

/-!
# Presence after a reconnection

The users of other hosts are in no store: they are in the table as the parent announced them.
When the connection to the parent is lost nothing is taken out of the table, and the next
connection begins with what is left. So a user who signs off in between stays listed until the
parent speaks of him.

`Convers.Node.heardOn` is a step with a record of the connection: the table it began with and
the lines it brought. A user of another host is listed because the connection announced him, or
because he was left and no line has named him yet (`Convers.Node.Traced`); so presence is that
of the connection exactly when everybody left has been named
(`Convers.Node.rebuilt_iff_refreshed`).
-/

namespace Convers

namespace HostCommand

/-- The channel that a `/..USER` or `/..OBSV` has for a user; that of a sign-off is -1. -/
def names (k : Text × Text) : HostCommand → Option Int32
  | .hostUser user host _ _ toChannel _ _ =>
    if k = (Callsigns.normalize user, Callsigns.normalize host) then some toChannel else none
  | _ => none

variable {k : Text × Text} {c : HostCommand}

/-- **A command puts a user where it names him**, if the channel is one or none. The one is what the
table makes of it, the other what the line says. -/
theorem places_eq_bind_names {event : Option ConversEvent}
    (hevent : HostBridge.toEvent c = .ok event) :
    c.places k = (c.names k).bind fun channel =>
      if Callsigns.isValidName k.1 ∧ Callsigns.isValidName k.2 then
        if channel = -1 then some none
        else if ChannelNumber.isValid channel then some (some channel) else none
      else none := by
  have hstamp : ∀ (seconds : Int64) (f : DateTimeOffset → ConversEvent),
      (do let t ← HostBridge.fromUnix seconds; .ok (some (f t))) = Except.ok event →
        ∃ t, some (f t) = event := by
    intro seconds f hf
    rcases ht : HostBridge.fromUnix seconds with fault | t
    · rw [ht] at hf
      cases hf
    · rw [ht] at hf
      exact ⟨t, Except.ok.inj hf⟩
  rw [places, hevent]
  cases c with
  | hostUser user host timestamp fromChannel toChannel text isObserver =>
    obtain ⟨t, rfl⟩ := hstamp timestamp _ hevent
    rw [names]
    dsimp only
    by_cases hk : k = (Callsigns.normalize user, Callsigns.normalize host)
    · rw [if_pos hk, Option.bind_some]
      simp only [hk, true_and]
    · rw [if_neg fun hbad => hk hbad.1, if_neg hk]
      rfl
  | hostAway user host time text =>
    obtain ⟨t, rfl⟩ := hstamp time _ hevent
    rfl
  | hostTopic user host time channel text =>
    obtain ⟨t, rfl⟩ := hstamp time _ hevent
    rfl
  | hostHandshake hostname software facilities =>
    cases hevent
    rfl
  | _ =>
    cases hevent
    rfl

/-- Whether a user is shown after a command: as before, unless it puts him somewhere. -/
theorem isSome_tells (k : Text × Text) (known : Option (Int32 × Text)) (c : HostCommand) :
    (c.tells k known).isSome = ((c.places k).getD (known.map Prod.fst)).isSome := by
  rw [← map_fst_tells, Option.isSome_map]

end HostCommand

namespace Hub

variable {h : Hub}

/-- A user is listed. -/
def Lists (h : Hub) (k : Text × Text) : Prop := (h.shows k).isSome = true

theorem Filed.heed (hf : h.Filed) (now : DateTimeOffset) (c : HostCommand) :
    (h.heed now c).Filed := by
  rw [Hub.heed]
  split
  · exact hf.step now _
  · exact hf

theorem hostName_heed (h : Hub) (now : DateTimeOffset) (c : HostCommand) :
    (h.heed now c).hostName = h.hostName := by
  rw [heed]
  split
  · exact hostName_step h now _
  · rfl

/-- The users of other hosts are shown as they are told. -/
theorem Filed.shows_heed (hf : h.Filed) {k : Text × Text} (hk : h.Remote k) (now : DateTimeOffset)
    (c : HostCommand) : (h.heed now c).shows k = c.tells k (h.shows k) := by
  rw [Hub.heed, HostCommand.tells]
  split
  · exact shows_of_remote hf.canonical hf.host hk now _
  · rfl

/-- A user of another host who is listed has a valid name. -/
theorem Filed.valid_of_lists (hf : h.Filed) {k : Text × Text} (hk : h.Remote k)
    (hlists : h.Lists k) : Callsigns.isValidName k.1 = true ∧ Callsigns.isValidName k.2 = true := by
  rw [Lists, shows, Option.isSome_map] at hlists
  obtain ⟨u, hu⟩ := Option.isSome_iff_exists.mp hlists
  obtain rfl : u.key = k := Table.key_of_find? hu
  exact (hf.holds.users _ u hu).valid hk

/-- **Why a user is listed after a command**: it named him, with a channel, or it did not and he was
listed. It is read backwards from the table to the lines of the connection. -/
theorem Filed.names_of_lists (hf : h.Filed) {k : Text × Text} (hk : h.Remote k)
    {now : DateTimeOffset} {c : HostCommand} {event : Option ConversEvent}
    (hevent : HostBridge.toEvent c = .ok event) (hlists : (h.heed now c).Lists k) :
    c.names k = none ∧ h.Lists k ∨ ∃ channel, c.names k = some channel ∧ channel ≠ -1 := by
  have hk' : (h.heed now c).Remote k := by rwa [Remote, hostName_heed]
  have hvalid := (hf.heed now c).valid_of_lists hk' hlists
  rw [Lists, hf.shows_heed hk, HostCommand.isSome_tells,
    HostCommand.places_eq_bind_names hevent] at hlists
  rcases hnames : c.names k with _ | channel
  · rw [hnames, Option.bind_none, Option.getD_none, Option.isSome_map] at hlists
    exact Or.inl ⟨rfl, hlists⟩
  · refine Or.inr ⟨channel, rfl, ?_⟩
    rintro rfl
    rw [hnames, Option.bind_some, if_pos hvalid, if_pos rfl] at hlists
    cases hlists

/-- A command that does not name a user leaves him listed. -/
theorem Filed.lists_heed (hf : h.Filed) {k : Text × Text} (hk : h.Remote k) (now : DateTimeOffset)
    {c : HostCommand} {event : Option ConversEvent} (hevent : HostBridge.toEvent c = .ok event)
    (hnames : c.names k = none) (hlists : h.Lists k) : (h.heed now c).Lists k := by
  rw [Lists, hf.shows_heed hk, HostCommand.isSome_tells, HostCommand.places_eq_bind_names hevent,
    hnames, Option.bind_none, Option.getD_none, Option.isSome_map]
  exact hlists

end Hub

namespace Node

/-! ### The record of a connection -/

/-- What there is of a connection to the parent. -/
structure Connection where
  /-- The hub as the connection began. -/
  begun : Hub
  /-- The lines it has brought. -/
  lines : List Text

/-- A step, with the record of the last connection. -/
def heardOn (p : Node × Connection) (label : Label) : Node × Connection :=
  (p.1.step label,
    match label with
    | .connect _ => if p.1.uplink.isSome then p.2 else ⟨p.1.hub, []⟩
    | .uplinkLine _ line =>
      if p.1.uplink.isSome then { p.2 with lines := p.2.lines ++ [line] } else p.2
    | _ => p.2)

/-- The steps of a node without downstream peers. -/
def Label.isLeaf : Label → Bool
  | .submit event => event.isLocal
  | .drain _ | .connect _ | .uplinkLine .. | .uplinkTick _ | .uplinkLoss => true
  | _ => false

/-- The channel a line has for a user it names. -/
def named (k : Text × Text) (line : Text) : Option Int32 :=
  (PeerRelay.contentOf line).bind (HostCommand.names k)

/-- **A user was announced**: a line named him, on a channel, and none after it signed him off. -/
def Announced (k : Text × Text) (lines : List Text) : Prop :=
  ∃ before line after channel, lines = before ++ line :: after ∧ named k line = some channel ∧
    channel ≠ -1 ∧ ∀ later ∈ after, named k later ≠ some (-1)

/-- The link to the parent is established. -/
def IsEstablished (n : Node) : Prop := n.uplink.map HostLinkEngine.state = some .established

theorem isSome_of_isEstablished {n : Node} (h : n.IsEstablished) : n.uplink.isSome = true := by
  obtain ⟨e, he, -⟩ := Option.map_eq_some_iff.mp h
  exact Option.isSome_iff_exists.mpr ⟨e, he⟩

/-- **Presence is that of the connection**: on an established link every user of another host
was announced on it. -/
def Rebuilt (p : Node × Connection) : Prop :=
  p.1.IsEstablished → ∀ u ∈ p.1.hub.users.records, u.host ≠ p.1.hub.hostName →
    Announced u.key p.2.lines

/-- Everybody left of the connections before has been named by a line of this one, when the link
is established. -/
def Refreshed (p : Node × Connection) : Prop :=
  p.1.IsEstablished → ∀ u ∈ p.2.begun.users.records, u.host ≠ p.2.begun.hostName →
    ∃ line ∈ p.2.lines, (named u.key line).isSome = true

instance (n : Node) : Decidable n.IsEstablished :=
  inferInstanceAs (Decidable (n.uplink.map HostLinkEngine.state = some .established))

instance (p : Node × Connection) : Decidable (Refreshed p) :=
  inferInstanceAs (Decidable (p.1.IsEstablished → ∀ u ∈ p.2.begun.users.records,
    u.host ≠ p.2.begun.hostName → ∃ line ∈ p.2.lines, (named u.key line).isSome = true))

section Lines

variable {k : Text × Text} {lines : List Text} {line : Text}

theorem announced_append {channel : Int32} (hline : named k line = some channel)
    (hchannel : channel ≠ -1) : Announced k (lines ++ [line]) :=
  ⟨lines, line, [], channel, rfl, hline, hchannel, nofun⟩

theorem Announced.append (h : Announced k lines) (hline : named k line ≠ some (-1)) :
    Announced k (lines ++ [line]) := by
  obtain ⟨before, first, after, channel, rfl, hfirst, hchannel, hafter⟩ := h
  refine ⟨before, first, after ++ [line], channel, by simp, hfirst, hchannel,
    fun later hlater => ?_⟩
  rcases List.mem_append.mp hlater with hlater | hlater
  · exact hafter later hlater
  · rw [List.mem_singleton.mp hlater]
    exact hline

theorem Announced.exists_named (h : Announced k lines) :
    ∃ line ∈ lines, (named k line).isSome = true := by
  obtain ⟨before, first, after, channel, rfl, hfirst, -⟩ := h
  exact ⟨first, by simp, by rw [hfirst]; rfl⟩

end Lines

/-! ### The users of a connection -/

/-- **What a connection has brought**: a user of another host is listed because it announced him, or
because he was left and no line has named him yet; and so long he is. -/
structure Traced (p : Node × Connection) : Prop where
  filed : p.1.hub.Filed
  queue : ∀ work ∈ p.1.queue, ∃ event, work = .event event ∧ event.isLocal = true
  isOpen : ∀ e, p.1.uplink = some e → e.state = .handshaking ∨ e.state = .established
  host : p.2.begun.hostName = p.1.hub.hostName
  listed : p.1.uplink.isSome = true → ∀ k, p.1.hub.Remote k → p.1.hub.Lists k →
    Announced k p.2.lines ∨ p.2.begun.Lists k ∧ ∀ line ∈ p.2.lines, named k line = none
  left : p.1.uplink.isSome = true → ∀ k, p.1.hub.Remote k → p.2.begun.Lists k →
    (∀ line ∈ p.2.lines, named k line = none) → p.1.hub.Lists k

/-- Somebody is listed who has an entry. -/
theorem lists_iff {h : Hub} {k : Text × Text} :
    h.Lists k ↔ ∃ u ∈ h.users.records, u.key = k := by
  rw [Hub.Lists, Hub.shows, Option.isSome_map]
  constructor
  · intro hsome
    obtain ⟨u, hu⟩ := Option.isSome_iff_exists.mp hsome
    exact ⟨u, Table.mem_of_find? hu, Table.key_of_find? hu⟩
  · rintro ⟨u, hu, rfl⟩
    rw [Table.mem_records.mp hu]
    rfl

variable {n : Node} {connection : Connection}

/-- **Presence is rebuilt exactly when everybody left has been named.** The users who were left from
the last connection are all that stands between the two. -/
theorem Traced.rebuilt_iff {p : Node × Connection} (ht : Traced p) : Rebuilt p ↔ Refreshed p := by
  constructor
  · intro hrebuilt hestablished u hu hhost
    have hup := isSome_of_isEstablished hestablished
    by_contra hnot
    have hunnamed : ∀ line ∈ p.2.lines, named u.key line = none := fun line hline =>
      Option.not_isSome_iff_eq_none.mp fun hsome => hnot ⟨line, hline, hsome⟩
    rw [ht.host] at hhost
    -- he is still listed, and nothing announced him
    obtain ⟨v, hv, hkey⟩ := lists_iff.mp
      (ht.left hup u.key hhost (lists_iff.mpr ⟨u, hu, rfl⟩) hunnamed)
    have hforeign : v.host ≠ p.1.hub.hostName := by
      rw [show v.host = u.host from congrArg Prod.snd hkey]
      exact hhost
    have hannounced := hrebuilt hestablished v hv hforeign
    rw [hkey] at hannounced
    exact hnot hannounced.exists_named
  · intro hrefreshed hestablished u hu hhost
    have hup := isSome_of_isEstablished hestablished
    rcases ht.listed hup u.key hhost (lists_iff.mpr ⟨u, hu, rfl⟩) with
      hannounced | ⟨hbegun, hunnamed⟩
    · exact hannounced
    · obtain ⟨v, hv, hkey⟩ := lists_iff.mp hbegun
      have hforeign : v.host ≠ p.2.begun.hostName := by
        rw [ht.host, show v.host = u.host from congrArg Prod.snd hkey]
        exact hhost
      obtain ⟨line, hline, hsome⟩ := hrefreshed hestablished v hv hforeign
      rw [hkey, hunnamed line hline] at hsome
      cases hsome

/-- A step without a line, that keeps the users of other hosts. -/
theorem Traced.of_kept (ht : Traced (n, connection)) {n' : Node} (hfiled : n'.hub.Filed)
    (hhost : n'.hub.hostName = n.hub.hostName)
    (hqueue : ∀ work ∈ n'.queue, ∃ event, work = .event event ∧ event.isLocal = true)
    (huplink : ∀ e', n'.uplink = some e' → ∃ e, n.uplink = some e ∧ e'.state = e.state)
    (hlists : ∀ k, n.hub.Remote k → (n'.hub.Lists k ↔ n.hub.Lists k)) :
    Traced (n', connection) := by
  have hwas : n'.uplink.isSome = true → n.uplink.isSome = true := by
    intro hup
    obtain ⟨e', he'⟩ := Option.isSome_iff_exists.mp hup
    obtain ⟨e, he, -⟩ := huplink e' he'
    rw [he]
    rfl
  have hremote : ∀ {k}, n'.hub.Remote k → n.hub.Remote k := by
    intro k hk
    rwa [Hub.Remote, hhost] at hk
  refine ⟨hfiled, hqueue, fun e' he' => ?_, ht.host.trans hhost.symm, fun hup k hk hlisted => ?_,
    fun hup k hk hbegun hunnamed => ?_⟩
  · obtain ⟨e, he, hstate⟩ := huplink e' he'
    rw [hstate]
    exact ht.isOpen e he
  · exact ht.listed (hwas hup) k (hremote hk) ((hlists k (hremote hk)).mp hlisted)
  · exact (hlists k (hremote hk)).mpr (ht.left (hwas hup) k (hremote hk) hbegun hunnamed)

/-- The connection is lost, with what there is in the table. -/
theorem Traced.of_lost (ht : Traced (n, connection)) {connection' : Connection}
    (hbegun : connection'.begun = connection.begun) :
    Traced ({ n with uplink := none }, connection') := by
  refine ⟨ht.filed, ht.queue, fun e he => ?_, (congrArg Hub.hostName hbegun).trans ht.host,
    fun hup => ?_, fun hup => ?_⟩
  · cases he
  · cases hup
  · cases hup

/-- **A local event is of none of the users of other hosts.** What it changes are our own users, and
they are not looked at. -/
theorem Traced.drain (ht : Traced (n, connection)) (now : DateTimeOffset) :
    Traced ((n.drain now).1, connection) := by
  rcases hqueue : n.queue with _ | ⟨work, queue⟩
  · rw [Node.drain, hqueue]
    exact ht
  obtain ⟨e, rfl, he⟩ := ht.queue work (by rw [hqueue]; simp)
  rw [Node.drain, hqueue]
  dsimp only
  rw [HostLink.hub_drainLocalEvent]
  refine ht.of_kept (ht.filed.step now e) (Hub.hostName_step n.hub now e)
    (fun w hw => ht.queue w (hqueue ▸ List.mem_cons_of_mem _ hw)) (fun e' he' => ⟨e', he', rfl⟩)
    fun k hk => ?_
  dsimp only
  rw [Hub.Lists, Hub.shows_of_remote ht.filed.canonical ht.filed.host hk, Hub.Lists]
  have htells : e.tells k (n.hub.shows k) = n.hub.shows k := by
    cases e <;> first | rfl | cases he
  rw [htells]

/-- A line that lists those it names, and leaves listed those it does not. -/
theorem Traced.of_line (ht : Traced (n, connection)) (hup : n.uplink.isSome = true) {n' : Node}
    {line : Text} (hfiled : n'.hub.Filed) (hhost : n'.hub.hostName = n.hub.hostName)
    (hqueue : n'.queue = n.queue)
    (hopen : ∀ e, n'.uplink = some e → e.state = .handshaking ∨ e.state = .established)
    (hlisted : ∀ k, n.hub.Remote k → n'.hub.Lists k →
      named k line = none ∧ n.hub.Lists k ∨ ∃ channel, named k line = some channel ∧ channel ≠ -1)
    (hleft : ∀ k, n.hub.Remote k → named k line = none → n.hub.Lists k → n'.hub.Lists k) :
    Traced (n', { connection with lines := connection.lines ++ [line] }) := by
  have hremote : ∀ {k}, n'.hub.Remote k → n.hub.Remote k := by
    intro k hk
    rwa [Hub.Remote, hhost] at hk
  refine ⟨hfiled, hqueue ▸ ht.queue, hopen, ht.host.trans hhost.symm, fun _ k hk hlists => ?_,
    fun _ k hk hbegun hunnamed => ?_⟩
  · rcases hlisted k (hremote hk) hlists with ⟨hnone, hwas⟩ | ⟨channel, hsome, hchannel⟩
    · rcases ht.listed hup k (hremote hk) hwas with hannounced | ⟨hbegun, hunnamed⟩
      · exact Or.inl (hannounced.append (by rw [hnone]; nofun))
      · refine Or.inr ⟨hbegun, fun l hl => ?_⟩
        rcases List.mem_append.mp hl with hl | hl
        · exact hunnamed l hl
        · rw [List.mem_singleton.mp hl]
          exact hnone
    · exact Or.inl (announced_append hsome hchannel)
  · exact hleft k (hremote hk) (hunnamed line (by simp))
      (ht.left hup k (hremote hk) hbegun fun l hl => hunnamed l (List.mem_append_left _ hl))

/-- **A line of the parent** announces a user, leaves him, or takes him out. The line is added to
those of the connection whatever it does. -/
theorem Traced.uplinkLine (ht : Traced (n, connection)) {e : HostLinkEngine}
    (huplink : n.uplink = some e) (now : DateTimeOffset) (line : Text) :
    Traced ({ n with
      uplink := (HostLink.receiveLine n.links now e n.hub line).1,
      hub := (HostLink.receiveLine n.links now e n.hub line).2.1 },
        { connection with lines := connection.lines ++ [line] }) := by
  rcases hread : e.onLineReceived now line with fault | ⟨engine, step⟩
  · -- the exception ends the connection
    have hlost : HostLink.receiveLine n.links now e n.hub line = (none, n.hub, []) := by
      rw [HostLink.receiveLine, hread]
    rw [hlost]
    exact ht.of_lost rfl
  have hup : n.uplink.isSome = true := by rw [huplink]; rfl
  have hopen := ht.isOpen e huplink
  have hne : e.state ≠ .disconnected := by
    rcases hopen with hopen | hopen
    · rw [hopen]
      rintro ⟨⟩
    · rw [hopen]
      rintro ⟨⟩
  have hengine : ∀ e', (HostLink.receiveLine n.links now e n.hub line).1 = some e' →
      e'.state = .handshaking ∨ e'.state = .established := by
    intro e' he'
    rw [HostLink.receiveLine, hread] at he'
    dsimp only at he'
    split at he'
    · cases he'
    · cases he'
      rw [(HostLinkEngine.state_of_line hne hread).1]
      split
      · exact Or.inr rfl
      · exact hopen
  rcases hcontent : PeerRelay.contentOf line with _ | c
  · -- a verb of the link is of no user
    have hnamed : ∀ k, named k line = none := by
      intro k
      rw [named, hcontent]
      rfl
    have hhub := (HostLink.receiveLine_linkLocal n.links now n.hub hcontent hread).1
    exact ht.of_line hup (hhub.symm ▸ ht.filed) (congrArg Hub.hostName hhub) rfl hengine
      (fun k _ hlists => Or.inl ⟨hnamed k, hhub ▸ hlists⟩) fun _ _ _ hlists => hhub.symm ▸ hlists
  · have hnamed : ∀ k, named k line = c.names k := by
      intro k
      rw [named, hcontent]
      rfl
    obtain ⟨event, hevent, -⟩ := HostLinkEngine.hubEvents_of_content hopen hcontent hread
    have hhub := HostLink.hub_receiveLine n.links now n.hub hopen hcontent hread
    refine ht.of_line hup (hhub.symm ▸ ht.filed.heed now c)
      ((congrArg Hub.hostName hhub).trans (Hub.hostName_heed n.hub now c)) rfl hengine
      (fun k hk hlists => ?_) fun k hk hnone hlists => ?_
    · rw [hnamed]
      exact ht.filed.names_of_lists hk hevent (hhub ▸ hlists)
    · exact hhub.symm ▸ ht.filed.lists_heed hk now hevent ((hnamed k).symm.trans hnone) hlists

/-- **Every step keeps the table to what was heard.** The losses and the reconnections are the steps
that begin a new list of lines. -/
theorem Traced.step {p : Node × Connection} (ht : Traced p) {label : Label}
    (hleaf : label.isLeaf = true) : Traced (heardOn p label) := by
  obtain ⟨n, connection⟩ := p
  cases label with
  | submit event =>
    refine ht.of_kept ht.filed rfl (fun work hwork => ?_) (fun e he => ⟨e, he, rfl⟩)
      fun k _ => Iff.rfl
    rcases List.mem_append.mp hwork with hwork | hwork
    · exact ht.queue work hwork
    · exact ⟨event, List.mem_singleton.mp hwork, hleaf⟩
  | drain now => exact ht.drain now
  | connect now =>
    rcases huplink : n.uplink with _ | e
    · -- the connection begins with the table as it is
      have hrecord : heardOn (n, connection) (.connect now) =
          ({ n with uplink := some ((HostLinkEngine.new n.options false).startHandshake now) },
            ⟨n.hub, []⟩) := by
        rw [heardOn, Node.step, next]
        simp only [huplink, Option.isSome_none, Bool.false_eq_true, if_false]
        rfl
      rw [hrecord]
      refine ⟨ht.filed, ht.queue, fun e he => ?_, rfl, fun _ k _ hlists => ?_,
        fun _ k _ hbegun _ => hbegun⟩
      · cases he
        exact Or.inl rfl
      · exact Or.inr ⟨hlists, by rintro _ ⟨⟩⟩
    · have hrecord : heardOn (n, connection) (.connect now) = (n, connection) := by
        rw [heardOn, Node.step, next]
        simp only [huplink, Option.isSome_some, if_true]
      rw [hrecord]
      exact ht
  | uplinkLine now line =>
    rcases huplink : n.uplink with _ | e
    · have hrecord : heardOn (n, connection) (.uplinkLine now line) = (n, connection) := by
        rw [heardOn, Node.step, next]
        simp only [huplink, Option.isSome_none, Bool.false_eq_true, if_false]
      rw [hrecord]
      exact ht
    · have hrecord : heardOn (n, connection) (.uplinkLine now line) = ({ n with
          uplink := (HostLink.receiveLine n.links now e n.hub line).1,
          hub := (HostLink.receiveLine n.links now e n.hub line).2.1 },
            { connection with lines := connection.lines ++ [line] }) := by
        rw [heardOn, Node.step, next]
        simp only [huplink, Option.isSome_some, if_true]
      rw [hrecord]
      exact ht.uplinkLine huplink now line
  | uplinkTick now =>
    show Traced (n.step (.uplinkTick now), connection)
    rcases huplink : n.uplink with _ | e
    · have hstep : n.step (.uplinkTick now) = n := by
        rw [Node.step, next]
        simp only [huplink]
      rw [hstep]
      exact ht
    · have happlied : (HostLink.applyStep n.links now n.hub (e.onTick now).2).1 = n.hub := by
        rw [HostLink.applyStep, (HostLinkEngine.onTick_pings now e).1, HostLink.applyEvents]
      have hstep : n.step (.uplinkTick now) = { n with
          uplink := if (e.onTick now).2.dropReason.isSome then none
            else some (e.onTick now).1 } := by
        rw [Node.step, next]
        simp only [huplink, happlied]
      rw [hstep]
      refine ht.of_kept ht.filed rfl ht.queue (fun e' he' => ⟨e, huplink, ?_⟩) fun k _ => Iff.rfl
      dsimp only at he'
      split at he'
      · cases he'
      · cases he'
        exact HostLinkEngine.state_onTick now e
  | uplinkLoss => exact ht.of_lost rfl
  | _ => cases hleaf

/-- **Presence after a reconnection.** A node without downstream peers goes through any local
events, losses and reconnections. Whenever the link is established every user of another host was
announced on the connection, if and only if whenever it is, everybody of another host who was listed
when the connection began has been named by a line of it. Nothing in the node takes such a user out,
so it is for the parent to name him. -/
theorem rebuilt_iff_refreshed (options : HostLinkOptions) {hostName : Text}
    {store : Option ConversStore} {start : Hub} (hnew : Hub.new hostName store = .ok start)
    {labels : List Label}
    (hleaf : ∀ p ∈ Run.trace heardOn (Node.new options start, ⟨start, []⟩) labels,
      p.2.isLeaf = true) :
    (∀ p ∈ Run.trace heardOn (Node.new options start, ⟨start, []⟩) labels, Rebuilt p.1) ∧
        Rebuilt (Run.final heardOn (Node.new options start, ⟨start, []⟩) labels) ↔
      (∀ p ∈ Run.trace heardOn (Node.new options start, ⟨start, []⟩) labels, Refreshed p.1) ∧
        Refreshed (Run.final heardOn (Node.new options start, ⟨start, []⟩) labels) := by
  have hstart : Traced (Node.new options start, ⟨start, []⟩) := by
    refine ⟨Hub.Filed.of_new hnew, fun work hwork => ?_, fun e he => ?_, rfl, fun hup => ?_,
      fun hup => ?_⟩
    · cases hwork
    · cases he
    · cases hup
    · cases hup
  obtain ⟨hall, hfinal⟩ := Run.invariant hstart labels fun p hp ht =>
    ht.step (hleaf p hp)
  exact and_congr (forall₂_congr fun p hp => (hall p hp).rebuilt_iff) hfinal.rebuilt_iff

/-- A user of another host is announced, the connection is lost, and on the next the parent
announces him ahead of its greeting. -/
def exampleReturn : List Label :=
  [.connect Hub.exampleMoment, .uplinkLine Hub.exampleMoment "/..HOST FAR saupp1.62a Aadmnp".toList,
    .uplinkLine Hub.exampleMoment "/..USER gb7abc FAR 0 -1 100 @".toList, .uplinkLoss,
    .connect Hub.exampleMoment,
    .uplinkLine Hub.exampleMoment "/..USER gb7abc FAR 0 -1 100 @".toList,
    .uplinkLine Hub.exampleMoment "/..HOST FAR saupp1.62a Aadmnp".toList]

/-- After the second greeting the listing of the other host is what its parent has said since. -/
theorem rebuilt_exampleReturn :
    (∀ p ∈ Run.trace heardOn (exampleStart, ⟨Hub.fresh "NODE".toList, []⟩) exampleReturn,
        Rebuilt p.1) ∧
      Rebuilt (Run.final heardOn (exampleStart, ⟨Hub.fresh "NODE".toList, []⟩) exampleReturn) := by
  refine (rebuilt_iff_refreshed _ (@Hub.new_none "NODE".toList rfl) ?_).mpr ⟨?_, ?_⟩
  · decide +kernel
  · decide +kernel
  · decide +kernel

/-- He is announced, the connection is lost, and the parent has nothing to tell on the next: he
left in between. -/
def exampleStale : List Label :=
  [.connect Hub.exampleMoment, .uplinkLine Hub.exampleMoment "/..HOST FAR saupp1.62a Aadmnp".toList,
    .uplinkLine Hub.exampleMoment "/..USER gb7abc FAR 0 -1 100 @".toList, .uplinkLoss,
    .connect Hub.exampleMoment,
    .uplinkLine Hub.exampleMoment "/..HOST FAR saupp1.62a Aadmnp".toList]

/-- **A user of a lost connection is still listed** on the next, which has not named him. Nothing
clears the table when the link goes down. -/
theorem not_rebuilt_exampleStale :
    (∀ p ∈ Run.trace heardOn (exampleStart, ⟨Hub.fresh "NODE".toList, []⟩) exampleStale,
        p.2.isLeaf = true) ∧
      ¬Rebuilt (Run.final heardOn (exampleStart, ⟨Hub.fresh "NODE".toList, []⟩) exampleStale) := by
  constructor
  · decide +kernel
  · intro hrebuilt
    have hstale : ∃ u ∈ (Run.final heardOn (exampleStart, ⟨Hub.fresh "NODE".toList, []⟩)
        exampleStale).1.hub.users.records, u.host ≠ (Run.final heardOn (exampleStart,
          ⟨Hub.fresh "NODE".toList, []⟩) exampleStale).1.hub.hostName ∧
            ∀ line ∈ (Run.final heardOn (exampleStart, ⟨Hub.fresh "NODE".toList, []⟩)
              exampleStale).2.lines, (named u.key line).isSome = false := by
      decide +kernel
    obtain ⟨u, hu, hforeign, hunnamed⟩ := hstale
    obtain ⟨line, hline, hnamed⟩ := (hrebuilt (by decide +kernel) u hu hforeign).exists_named
    rw [hunnamed line hline] at hnamed
    cases hnamed

end Node

end Convers
