import Convers.Host.Mirror
import Convers.Host.Relay

/-!
# What the parent knows of our users

Our users are told to the parent as they come, move and go, and all of them again when
the handshake of a connection is complete. What is sent before that may find the parent
without the user it is about, so on a new connection the parent is behind our table
(`Convers.Hub.Behind`): a user is unknown to it, or is known without his away text. Every
event keeps it no further behind (`Convers.Hub.Home.behind_step`), and the announcement
catches it up; so on an established link the parent shows our users as they are, through
every loss and reconnection (`Convers.Node.mirrors_of_atHome`).
-/

namespace Convers

namespace Hub

variable {h : Hub}

/-- Every user listed is that of a session here. -/
def OnlyOurs (h : Hub) : Prop :=
  ∀ k u, h.users.find? k = some u → ∃ s, h.Attached s ∧ k = (s.callsign, h.hostName)

/-- **What the parent should see**: each of our sessions as a user of ours on its channel
and with its away text, and nobody else. -/
structure Mirrors (h view : Hub) : Prop where
  each : ∀ s, h.Attached s → ∃ u, view.users.find? (s.callsign, h.hostName) = some u ∧
    u.channel = s.channel ∧ u.away = s.away
  only : ∀ k u, view.users.find? k = some u → ∃ s, h.Attached s ∧ k = (s.callsign, h.hostName)

/-- A hub that has heard of no other host. -/
structure Home (h : Hub) : Prop where
  sound : h.Sound
  projected : h.Projected
  ours : h.OnlyOurs
  trimmed : ∀ k channel away, h.shows k = some (channel, away) → trim away = away

/-- What a host knows of a user is behind what there is to know: it does not know the user,
or not his away text, unless it knows all. -/
def Behind (known shown : Option (Int32 × Text)) : Prop :=
  known = none ∨ known = shown ∨
    ∃ channel away, shown = some (channel, away) ∧ known = some (channel, [])

/-! ### A step of the hub -/

/-- What is shown of a session here is the session's. -/
theorem Projected.shows (hp : h.Projected) {s : LocalSession} (hs : h.Attached s) :
    h.shows (s.callsign, h.hostName) = some (s.channel, s.away) := by
  rw [Hub.shows, hp s hs]
  rfl

/-- A callsign without a session has no entry. -/
theorem OnlyOurs.shows_eq_none (hours : h.OnlyOurs) {call : Text}
    (hcall : ∀ s, h.Attached s → s.callsign ≠ call) : h.shows (call, h.hostName) = none := by
  rw [Hub.shows, Option.map_eq_none_iff]
  by_contra hne
  obtain ⟨u, hu⟩ := Option.ne_none_iff_exists'.mp hne
  obtain ⟨s, hs, hkey⟩ := hours _ u hu
  exact hcall s hs (congrArg Prod.fst hkey).symm

/-- The users listed stay ours when the sessions do. -/
theorem OnlyOurs.of_kept {h' : Hub} (hours : h.OnlyOurs) (hhost : h'.hostName = h.hostName)
    (hkept : ∀ s, h.Attached s → ∃ t, h'.Attached t ∧ t.callsign = s.callsign)
    (husers : ∀ k u, h'.users.find? k = some u →
      (∃ u', h.users.find? k = some u') ∨
        ∃ s, h'.Attached s ∧ k = (s.callsign, h.hostName)) : h'.OnlyOurs := by
  intro k u hu
  rw [hhost]
  rcases husers k u hu with ⟨u', hu'⟩ | hs
  · obtain ⟨s, hs, rfl⟩ := hours k u' hu'
    obtain ⟨t, ht, hcall⟩ := hkept s hs
    exact ⟨t, ht, by rw [hcall]⟩
  · exact hs

/-- A stored session keeps the users ours, if it is new or keeps its callsign. -/
theorem OnlyOurs.storeSession (hours : h.OnlyOurs) {s : LocalSession}
    (hs : ∀ t, h.sessions.find? s.id = some t → t.callsign = s.callsign) :
    (h.storeSession s).OnlyOurs := by
  have hself : (h.storeSession s).Attached s := by
    rw [Attached, find?_sessions_storeSession, if_pos rfl]
  refine hours.of_kept rfl (fun t ht => ?_) fun k u hu => ?_
  · by_cases hid : t.id = s.id
    · exact ⟨s, hself, (hs t (hid ▸ ht)).symm⟩
    · refine ⟨t, ?_, rfl⟩
      rw [Attached, find?_sessions_storeSession, if_neg hid]
      exact ht
  · rw [find?_users_storeSession] at hu
    split at hu
    · rename_i hk
      exact Or.inr ⟨s, hself, hk⟩
    · exact Or.inl ⟨u, hu⟩

/-- A grant keeps the users ours. -/
theorem OnlyOurs.grantOperator (hours : h.OnlyOurs) (call : Text) (channel : Int32) (grant : Bool) :
    (h.grantOperator call channel grant).OnlyOurs := by
  have hkept : ∀ s, h.Attached s → ∃ t, (h.grantOperator call channel grant).Attached t ∧
      t.callsign = s.callsign := by
    intro s hs
    refine ⟨_, attached_grantOperator.mpr ⟨s, hs, rfl⟩, ?_⟩
    split <;> rfl
  refine hours.of_kept (hostName_grantOperator h call channel grant) hkept fun k u hu => ?_
  rcases entry_of_grantOperator hu with ⟨s, hs, flag, rfl⟩ | hu
  · obtain ⟨t, ht, hcall⟩ := hkept s hs
    refine Or.inr ⟨t, ht, ?_⟩
    rw [hcall]
    exact (Table.key_of_find? hu).symm
  · exact Or.inl ⟨u, hu⟩

theorem OnlyOurs.of_roster {h' : Hub} (hours : h.OnlyOurs) (hroster : h'.roster = h.roster) :
    h'.OnlyOurs := by
  refine hours.of_kept (hostName_of_roster hroster) (fun s hs => ⟨s, ?_, rfl⟩) fun k u hu => ?_
  · rw [Attached, sessions_of_roster hroster]
    exact hs
  · rw [users_of_roster hroster] at hu
    exact Or.inl ⟨u, hu⟩

/-- **A local event keeps the users ours**, if a join is by a new session. Without another host
nobody else can be in the table. -/
theorem OnlyOurs.step (hours : h.OnlyOurs) (now : DateTimeOffset)
    {e : ConversEvent} (he : e.isLocal = true)
    (hfresh : ∀ sessionId callsign channel, e = .localJoin sessionId callsign channel →
      h.sessions.find? sessionId = none) : (step h (now, e)).OnlyOurs := by
  -- a session that is stored again
  have hsame : ∀ {s s' : LocalSession}, h.Attached s → s'.id = s.id → s'.callsign = s.callsign →
      (h.storeSession s').OnlyOurs := by
    intro s s' hs hid hcall
    refine hours.storeSession fun t ht => ?_
    rw [hid, hs] at ht
    cases ht
    exact hcall.symm
  cases rosterStep h now e with
  | quiet hroster => exact hours.of_roster hroster
  | joined hadm hroster =>
    rename_i sessionId callsign channel
    refine (hours.storeSession fun t ht => ?_).of_roster hroster
    cases (hfresh sessionId callsign channel rfl).symm.trans ht
  | switched hs hall hroster =>
    rename_i s channel
    exact (@hsame s (switchedSession now h s channel) hs rfl rfl).of_roster hroster
  | retold s s' hs hretold hroster =>
    obtain ⟨personal, away, rfl⟩ := hretold
    exact (@hsame s { s with personal := personal, away := away } hs rfl rfl).of_roster
      hroster
  | left hs hroster =>
    rename_i s reason
    refine OnlyOurs.of_roster (fun k u hu => ?_) hroster
    rw [find?_users_dropSession] at hu
    split at hu
    · cases hu
    · rename_i hk
      obtain ⟨t, ht, rfl⟩ := hours k u hu
      refine ⟨t, ?_, rfl⟩
      rw [Attached, find?_sessions_dropSession, if_neg]
      · exact ht
      · intro hid
        refine hk ?_
        rw [Attached, hid, hs] at ht
        cases ht
        rfl
  | authenticated hs hroster => exact (hours.grantOperator _ _ _).of_roster hroster
  | invited hs hroster =>
    refine OnlyOurs.of_roster ?_ hroster
    rename_i s toUser channel
    refine hours.of_kept (hostName_recordInvite h _ _) (fun t ht => ?_) fun k u hu => ?_
    · have hfind := h.find?_sessions_recordInvite (Callsigns.normalize toUser) channel t.id
      rw [ht, Option.map_some] at hfind
      refine ⟨_, attached_of_find? hfind, ?_⟩
      split <;> rfl
    · rw [users_recordInvite] at hu
      exact Or.inl ⟨u, hu⟩
  | vanished k hremote hroster =>
    refine OnlyOurs.of_roster (fun k' u hu => ?_) hroster
    rw [Table.find?_remove] at hu
    split at hu
    · cases hu
    · exact hours k' u hu
  | described u u' hu hkey hchannel hflag hroster =>
    refine OnlyOurs.of_roster (fun k v hv => ?_) hroster
    rw [Table.find?_put] at hv
    split at hv
    · rename_i hk
      rw [hk, hkey]
      exact hours _ u hu
    · exact hours k v hv
  | hostInvited | appeared | granted | flagged => cases he

/-- A join is by a new session of a callsign that has none, if no callsign has two after. -/
theorem not_attached_of_joins {now : DateTimeOffset} {sessionId callsign : Text} {channel : Int32}
    (hadm : h.admits channel (Callsigns.normalize callsign) = true)
    (hfresh : h.sessions.find? sessionId = none)
    (hsingle : (step h (now, .localJoin sessionId callsign channel)).Single) (s : LocalSession)
    (hs : h.Attached s) : s.callsign ≠ Callsigns.normalize callsign := by
  have hsessions : ∀ id, (step h (now, .localJoin sessionId callsign channel)).sessions.find? id =
      if id = sessionId then some (joinedSession now h sessionId callsign channel)
      else h.sessions.find? id := by
    intro id
    rw [step, advance, localJoin_of_admits now sessionId hadm]
    exact h.find?_sessions_storeSession _ id
  intro hcall
  have hid : s.id ≠ sessionId := by
    rintro rfl
    cases hs.symm.trans hfresh
  have hkept : (step h (now, .localJoin sessionId callsign channel)).Attached s := by
    rw [Attached, hsessions, if_neg hid]
    exact hs
  have hnew : (step h (now, .localJoin sessionId callsign channel)).Attached
      (joinedSession now h sessionId callsign channel) :=
    (hsessions sessionId).trans (if_pos rfl)
  exact hid (congrArg LocalSession.id (hsingle s _ hkept hnew hcall))

section Step

variable (hhome : h.Home) {now : DateTimeOffset} {e : ConversEvent} (he : e.isLocal = true)
  (hsingle : h.Single) (hsingle' : (step h (now, e)).Single)
  (hjoin : ∀ sessionId callsign channel, e = .localJoin sessionId callsign channel →
    Callsigns.isValidName callsign = true ∧ h.sessions.find? sessionId = none)

include hhome he hsingle' hjoin

/-- **A host that knows a user, or is behind, stays so** when it hears what is said. A parent that
has missed something is so never wrong, but late. -/
theorem Home.behind_step (k : Text × Text) {known : Option (Int32 × Text)}
    (hbehind : Behind known (h.shows k)) :
    Behind (((said now h e).map fun a => a.tells k known).getD known) ((step h (now, e)).shows k) ∧
      (known = h.shows k → ((said now h e).map fun a => a.tells k known).getD known =
        (step h (now, e)).shows k) := by
  have hsilent : ∀ {said : Option ConversAction},
      (∀ a ∈ said, ∀ k known, a.tells k known = known) →
        (said.map fun a => a.tells k known).getD known = known := by
    intro said hsaid
    rcases said with _ | a
    · rfl
    · exact hsaid a rfl k _
  have hstep := localStep hhome.sound.canonical now he
  generalize said now h e = said at hstep
  cases hstep with
  | kept hshows hsaid =>
    rw [hsilent hsaid, hshows]
    exact ⟨hbehind, id⟩
  | restored hs hrestores hshows hsaid =>
    -- the entry is stored as it was
    have hsame : (step h (now, e)).shows k = h.shows k := by
      rw [hshows]
      split
      · rename_i hk
        rw [hk, hhome.projected.shows hs]
      · rfl
    rw [hsilent hsaid, hsame]
    exact ⟨hbehind, id⟩
  | joined hchannel hadm hshows =>
    rename_i sessionId callsign channel personal
    obtain ⟨hvalid, hfresh⟩ := hjoin _ _ _ rfl
    rw [hshows, Option.map_some, Option.getD_some, ConversAction.tells_sendUser
      ⟨Callsigns.normalize_normalize _, Callsigns.isValidName_normalize hvalid⟩ hhome.sound.host now
      _ hchannel]
    split
    · -- nobody knew of the callsign
      rename_i hk
      have hnone := hhome.ours.shows_eq_none (not_attached_of_joins hadm hfresh hsingle')
      rw [hk, hnone] at hbehind
      have hknown : known = none := by
        rcases hbehind with hknown | hknown | ⟨channel, away, hbad, -⟩
        · exact hknown
        · exact hknown
        · cases hbad
      rw [hknown]
      exact ⟨Or.inr (Or.inl rfl), fun _ => rfl⟩
    · exact ⟨hbehind, id⟩
  | switched hs hchannel hall hshows =>
    rename_i s channel
    rw [hshows, Option.map_some, Option.getD_some, ConversAction.tells_sendUser
      (hhome.sound.callsign hs) hhome.sound.host now _ hchannel]
    split
    · rename_i hk
      rw [hk, hhome.projected.shows hs] at hbehind
      rw [hk, hhome.projected.shows hs]
      constructor
      · rcases hbehind with rfl | rfl | ⟨channel', away, hshown, rfl⟩
        · exact Or.inr (Or.inr ⟨_, _, rfl, rfl⟩)
        · exact Or.inr (Or.inl rfl)
        · exact Or.inr (Or.inr ⟨_, _, rfl, rfl⟩)
      · rintro rfl
        rfl
    · exact ⟨hbehind, id⟩
  | marked hs hshows =>
    rename_i s away
    rw [hshows, Option.map_some, Option.getD_some, ConversAction.tells_sendAway
      (hhome.sound.callsign hs) hhome.sound.host]
    split
    · rename_i hk
      rw [hk, hhome.projected.shows hs] at hbehind
      rw [hk, hhome.projected.shows hs]
      constructor
      · rcases hbehind with rfl | rfl | ⟨channel', away', hshown, rfl⟩
        · exact Or.inl rfl
        · exact Or.inr (Or.inl (by rw [Option.map_some, trim_trim]))
        · cases hshown
          exact Or.inr (Or.inl (by rw [Option.map_some, trim_trim]))
      · rintro rfl
        rw [Option.map_some, trim_trim]
    · exact ⟨hbehind, id⟩
  | left hs hshows =>
    rename_i s reason
    rw [hshows, Option.map_some, Option.getD_some, ConversAction.tells_sendUser_leave
      (hhome.sound.callsign hs) hhome.sound.host]
    split
    · exact ⟨Or.inl rfl, fun _ => rfl⟩
    · exact ⟨hbehind, id⟩

include hsingle

/-- **A local event keeps the hub at home.** So the next event finds it there. -/
theorem Home.step : (Hub.step h (now, e)).Home := by
  refine ⟨hhome.sound.step now fun id callsign channel heq => (hjoin id callsign channel heq).1,
    hhome.projected.step hsingle now e hsingle' (heeds_of_isLocal he),
    hhome.ours.step now he fun id callsign channel heq => (hjoin id callsign channel heq).2, ?_⟩
  have hnew : ∀ {call : Text} {channel : Int32} {away : Text},
      h.Shows (Hub.step h (now, e)) call (some (channel, away)) → trim away = away →
        ∀ k c a, (Hub.step h (now, e)).shows k = some (c, a) → trim a = a := by
    intro call channel away hshows htrim k c a hk
    rw [hshows] at hk
    split at hk
    · cases hk
      exact htrim
    · exact hhome.trimmed k c a hk
  have hsession : ∀ {s : LocalSession}, h.Attached s → trim s.away = s.away := fun hs =>
    hhome.trimmed _ _ _ (hhome.projected.shows hs)
  have hstep := localStep hhome.sound.canonical now he
  generalize said now h e = said at hstep
  cases hstep with
  | kept hshows hsaid =>
    intro k c a hk
    rw [hshows] at hk
    exact hhome.trimmed k c a hk
  | joined hchannel hadm hshows => exact hnew hshows rfl
  | switched hs hchannel hall hshows => exact hnew hshows (hsession hs)
  | restored hs hrestores hshows hsaid => exact hnew hshows (hsession hs)
  | marked hs hshows => exact hnew hshows (trim_trim _)
  | left hs hshows =>
    intro k c a hk
    rw [hshows] at hk
    split at hk
    · cases hk
    · exact hhome.trimmed k c a hk

end Step

/-- A hub starts at home, if its name is valid. -/
theorem home_of_new {hostName : Text} {store : Option ConversStore}
    (hnew : new hostName store = .ok h) (hvalid : Callsigns.isValidName hostName = true) :
    h.Home := by
  refine ⟨sound_of_new hnew hvalid, fun s hs => absurd hs (not_attached_of_new hnew s),
    fun k u hu => ?_, fun k channel away hk => ?_⟩
  · rw [users_of_new hnew] at hu
    cases hu
  · rw [shows, users_of_new hnew] at hk
    cases hk

/-- **The announcement of our users catches a host up** that is behind. It does not matter what the
parent missed while the link was down. -/
theorem Home.toldBy_onEstablished (hhome : h.Home) (k : Text × Text)
    {known : Option (Int32 × Text)} (hbehind : Behind known (h.shows k)) :
    HostCommand.toldBy k (HostLink.onEstablished h) known = h.shows k := by
  rw [HostLink.toldBy_onEstablished hhome.sound]
  rcases hu : h.users.find? k with _ | u
  · rw [shows, hu] at hbehind ⊢
    rcases hbehind with rfl | rfl | ⟨channel, away, hbad, -⟩
    · rfl
    · rfl
    · cases hbad
  · obtain ⟨s, hs, rfl⟩ := hhome.ours k u hu
    obtain rfl : u = h.localUser s := Option.some.inj (hu.symm.trans (hhome.projected s hs))
    have hshown := hhome.projected.shows hs
    have hown : HostLinkEngine.equalsIgnoreCase (h.localUser s).host h.hostName = true :=
      decide_eq_true rfl
    rw [hshown] at hbehind ⊢
    rw [Option.filter_some, if_pos hown, Option.map_some, Option.some_or, HostLink.introduced]
    refine congrArg some (Prod.ext rfl ?_)
    show (if s.away.length ≠ 0 then trim s.away else (known.map Prod.snd).getD []) = s.away
    by_cases hlength : s.away.length ≠ 0
    · rw [if_pos hlength]
      exact hhome.trimmed _ _ _ hshown
    · rw [if_neg hlength]
      have hempty : s.away = [] := List.length_eq_zero_iff.mp (not_not.mp hlength)
      rcases hbehind with rfl | rfl | ⟨channel, away, -, rfl⟩
      · exact hempty.symm
      · rfl
      · exact hempty.symm

/-- A host that shows of every user what our table does mirrors our users. -/
theorem Home.mirrors (hhome : h.Home) {view : Hub} {viewer : Text}
    (hview : ∀ k, view.shows k = if k.2 = viewer then none else h.shows k)
    (hviewer : viewer ≠ h.hostName) : h.Mirrors view := by
  constructor
  · intro s hs
    have hshown := hview (s.callsign, h.hostName)
    rw [if_neg (Ne.symm hviewer), hhome.projected.shows hs] at hshown
    obtain ⟨u, hu, hseen⟩ := Option.map_eq_some_iff.mp hshown
    exact ⟨u, hu, congrArg Prod.fst hseen, congrArg Prod.snd hseen⟩
  · intro k u hu
    have hshown := hview k
    rw [shows, hu, Option.map_some] at hshown
    split at hshown
    · cases hshown
    · obtain ⟨v, hv, -⟩ := Option.map_eq_some_iff.mp hshown.symm
      exact hhome.ours k v hv

end Hub

/-! ### A line of the parent -/

/-- The events of a single link. -/
def ConversEvent.isOfLink : ConversEvent → Bool
  | .hostPing | .hostPong _ | .hostLoop _ | .hostUnknown _ => true
  | _ => false

namespace HostLinkEngine

variable {now : DateTimeOffset} {e e' : HostLinkEngine} {line : Text} {step : EngineStep}

/-- A tick pings at most. -/
theorem onTick_pings (now : DateTimeOffset) (e : HostLinkEngine) :
    (e.onTick now).2.hubEvents = [] ∧
      ∀ c ∈ (e.onTick now).2.outboundCommands, c = .hostPing := by
  simp only [onTick]
  split
  · exact ⟨rfl, nofun⟩
  · split
    · exact ⟨rfl, nofun⟩
    · split
      · exact ⟨rfl, nofun⟩
      · split
        · exact ⟨rfl, fun c hc => List.mem_singleton.mp hc⟩
        · exact ⟨rfl, nofun⟩

/-- **A verb of the link tells of nobody**: neither its replies nor its events do. Of such lines
only the one that completes the handshake matters. -/
theorem onLineReceived_linkLocal (hcontent : PeerRelay.contentOf line = none)
    (h : e.onLineReceived now line = .ok (e', step)) :
    (∀ c ∈ step.outboundCommands, ∀ k known, c.tells k known = known) ∧
      ∀ event ∈ step.hubEvents, event.isOfLink = true := by
  -- what the bridge makes of such a command is an event of the link, or nothing
  have hbridge : ∀ {e₀ : HostLinkEngine} {c : HostCommand}, PeerRelay.isLinkLocal c = true →
      (HostBridge.toEvent c >>= fun event =>
        Except.ok (e₀, { EngineStep.none with hubEvents := event.toList })) = .ok (e', step) →
          (∀ c ∈ step.outboundCommands, ∀ k known, c.tells k known = known) ∧
            ∀ event ∈ step.hubEvents, event.isOfLink = true := by
    intro e₀ c hlocal hok
    obtain ⟨-, hstep, hevents⟩ := of_bridge hok
    refine ⟨fun c hc => ?_, fun event hevent => ?_⟩
    · rw [hstep] at hc
      cases hc
    · have hto := hevents event hevent
      cases c <;> first | cases hlocal; done | (cases hto; done) | (cases hto; rfl)
  rw [onLineReceived_eq] at h
  rcases hparsed : (HostCommandCodec.stripPrefix line).map HostCommandCodec.parseBody with _ | c
  · rw [hparsed] at h
    cases h
    exact ⟨nofun, nofun⟩
  · -- a line that carries no content has a command that stays on the link
    have hlocal : PeerRelay.isLinkLocal c = true := by
      by_contra hbad
      rw [PeerRelay.contentOf_eq_some.mpr ⟨hparsed, Bool.eq_false_iff.mpr hbad⟩] at hcontent
      cases hcontent
    rw [hparsed] at h
    rcases hstate : e.state with _ | _ | _
    · simp only [hstate] at h
      cases h
      exact ⟨nofun, nofun⟩
    · simp only [hstate] at h
      cases c with
      | hostHandshake hostname software facilities =>
        cases h
        refine ⟨fun c hc => ?_, nofun⟩
        dsimp only at hc
        split at hc
        · rw [List.mem_singleton.mp hc]
          exact fun _ _ => rfl
        · cases hc
      | _ => exact hbridge hlocal h
    · simp only [hstate] at h
      cases c with
      | hostHandshake hostname software facilities =>
        cases h
        exact ⟨nofun, nofun⟩
      | hostPong time | hostLoop detail =>
        cases h
        refine ⟨nofun, fun event hevent => ?_⟩
        rw [List.mem_singleton.mp hevent]
        rfl
      | hostRoute dest user ttl =>
        cases h
        refine ⟨fun c hc => ?_, nofun⟩
        rw [List.mem_singleton.mp hc]
        exact fun _ _ => rfl
      | hostSysInfo user host =>
        cases h
        refine ⟨fun c hc => ?_, nofun⟩
        dsimp only [sysInfoReplies] at hc
        split at hc
        · rcases List.mem_cons.mp hc with rfl | hc
          · exact fun _ _ => rfl
          · split at hc
            · rw [List.mem_singleton.mp hc]
              exact fun _ _ => rfl
            · cases hc
        · cases hc
      | _ => exact hbridge hlocal h

end HostLinkEngine

namespace HostLink

open HostCommand (toldBy toldBy_append toldBy_eq_self)

variable (links : Links) (now : DateTimeOffset) (h : Hub)

/-- An event of a link is answered with a pong at most. -/
theorem advance_ofLink {event : ConversEvent} (hevent : event.isOfLink = true) :
    ∃ actions, h.advance now event = ⟨h, actions, none⟩ ∧
      (dispatchActions links none allSucceed actions).threw = false ∧
        ∀ c ∈ attempted (dispatchActions links none allSucceed actions).effects, ∀ k known,
          c.tells k known = known := by
  cases event with
  | hostPing =>
    refine ⟨_, rfl, ?_⟩
    by_cases hreaches : links.reachesUplink none = true
    · have hsent : dispatchActions links none allSucceed [.sendPong Hub.pongSentinelNoMeasurement] =
          .calls [.uplink (.hostPong Hub.pongSentinelNoMeasurement) true] := by
        simp [dispatchActions, HostBridge.toHostCommand, hreaches, sendCommand, allSucceed,
          Trace.andThen, Trace.calls]
      rw [hsent]
      refine ⟨rfl, fun c hc => ?_⟩
      rw [List.mem_singleton.mp hc]
      exact fun _ _ => rfl
    · have hsent : dispatchActions links none allSucceed [.sendPong Hub.pongSentinelNoMeasurement] =
          .calls [] := by
        simp [dispatchActions, HostBridge.toHostCommand, hreaches, Trace.andThen, Trace.calls]
      rw [hsent]
      exact ⟨rfl, by rintro _ ⟨⟩⟩
  | hostPong | hostLoop | hostUnknown => exact ⟨_, rfl, rfl, by rintro _ ⟨⟩⟩
  | _ => cases hevent

/-- **The events of a link** leave the hub as it is, and what they answer tells of nobody. They are
a ping, a pong, a loop and whatever is unknown. -/
theorem applyEvents_ofLink {events : List ConversEvent}
    (hevents : ∀ event ∈ events, event.isOfLink = true) :
    (applyEvents links none now h events).1 = h ∧
      (applyEvents links none now h events).2.threw = false ∧
        ∀ c ∈ attempted (applyEvents links none now h events).2.effects, ∀ k known,
          c.tells k known = known := by
  induction events with
  | nil => exact ⟨rfl, rfl, nofun⟩
  | cons event events ih =>
    obtain ⟨actions, hanswer, hthrew, htells⟩ :=
      advance_ofLink links now h (hevents event (by simp))
    obtain ⟨hhub, hthrew', htells'⟩ := ih fun e he => hevents e (List.mem_cons_of_mem _ he)
    rw [applyEvents, hanswer]
    refine ⟨hhub, ?_, fun c hc => ?_⟩
    · simp [Trace.andThen, hthrew, hthrew', Trace.calls]
    · simp only [Trace.andThen, Trace.calls, hthrew, Bool.false_eq_true, if_false, attempted_append,
        List.mem_append] at hc
      rcases hc with (hc | hc) | hc
      · cases hc
      · exact htells c hc
      · exact htells' c hc

/-- **A verb of the link tells the parent of nobody**, unless it completes the handshake: then our
users are announced. It covers every line that a parent without content sends. -/
theorem receiveLine_linkLocal {e engine : HostLinkEngine} {line : Text} {step : EngineStep}
    (hcontent : PeerRelay.contentOf line = none)
    (hread : e.onLineReceived now line = .ok (engine, step)) :
    (receiveLine links now e h line).2.1 = h ∧
      ∀ k known, toldBy k (attempted (receiveLine links now e h line).2.2) known =
        if step.dropReason = none ∧ step.handshakeCompleted = true then
          toldBy k (onEstablished h) known
        else known := by
  obtain ⟨hreplies, hevents⟩ := HostLinkEngine.onLineReceived_linkLocal hcontent hread
  obtain ⟨hhub, hthrew, htells⟩ := applyEvents_ofLink links now h hevents
  have huplink : ∀ commands : List HostCommand,
      attempted (commands.map (.uplink · true)) = commands := by
    intro commands
    simp [attempted, List.filterMap_map]
  have hstep : applyStep links now h step = (h, ⟨step.outboundCommands.map (.uplink · true) ++
      (applyEvents links none now h step.hubEvents).2.effects, false⟩) := by
    rw [applyStep, hhub, Trace.calls_andThen, hthrew]
  have hquiet : ∀ k known, toldBy k (attempted (step.outboundCommands.map (.uplink · true) ++
      (applyEvents links none now h step.hubEvents).2.effects)) known = known := by
    intro k known
    rw [attempted_append, huplink, toldBy_append, toldBy_eq_self fun c hc => hreplies c hc k,
      toldBy_eq_self fun c hc => htells c hc k]
  rw [receiveLine, hread]
  dsimp only
  rw [hstep, relayedLine_of_none links hcontent]
  dsimp only
  rcases hdrop : step.dropReason with _ | reason
  · refine ⟨rfl, fun k known => ?_⟩
    rw [Trace.calls_andThen, List.nil_append, Trace.effects_andThen, attempted_append,
      toldBy_append, hquiet, if_neg Bool.false_ne_true, Trace.effects_calls]
    rcases step.handshakeCompleted with _ | _
    · rw [if_neg Bool.false_ne_true, if_neg fun hbad => Bool.false_ne_true hbad.2]
      rfl
    · rw [if_pos rfl, if_pos ⟨rfl, rfl⟩, huplink]
  · refine ⟨rfl, fun k known => ?_⟩
    rw [Trace.calls_andThen, List.nil_append, hquiet,
      if_neg fun hbad => Option.some_ne_none reason hbad.1]

end HostLink

namespace Node

open HostCommand (toldBy toldBy_append toldBy_eq_self)
open HostLink (attempted)

/-! ### Runs with the parent alone -/

/-- A step of a node that has no other host than its parent, which sends no content. The
join of a session is by a new one, under a valid callsign. -/
def AtHome (n : Node) : Label → Prop
  | .submit event => event.isLocal = true
  | .drain _ =>
    match n.queue with
    | .event (.localJoin sessionId callsign _) :: _ =>
      Callsigns.isValidName callsign = true ∧ n.hub.sessions.find? sessionId = none
    | _ => True
  | .connect _ | .uplinkTick _ | .uplinkLoss => True
  | .uplinkLine _ line => PeerRelay.contentOf line = none
  | _ => False

instance (n : Node) : (label : Label) → Decidable (n.AtHome label)
  | .submit event => inferInstanceAs (Decidable (event.isLocal = true))
  | .drain now => by
    rw [AtHome]
    split
    · exact inferInstanceAs (Decidable (_ ∧ _))
    · exact inferInstanceAs (Decidable True)
  | .connect _ | .uplinkTick _ | .uplinkLoss => inferInstanceAs (Decidable True)
  | .uplinkLine _ line => inferInstanceAs (Decidable (PeerRelay.contentOf line = none))
  | .accept .. | .arrive .. | .read .. | .proceed _ | .peerTick .. | .peerLoss _ =>
    inferInstanceAs (Decidable False)

/-- A step, with the commands sent to the parent since its connection began. -/
def sent (p : Node × List HostCommand) (label : Label) : Node × List HostCommand :=
  (p.1.step label, (if p.1.uplink.isSome then p.2 else []) ++ attempted (p.1.effects label))

/-- **The parent follows our table**: on an open connection it is behind at most, and on an
established one it knows what there is to know. -/
structure Followed (n : Node) (commands : List HostCommand) : Prop where
  home : n.hub.Home
  queue : ∀ work ∈ n.queue, ∃ event, work = .event event ∧ event.isLocal = true
  isOpen : ∀ e, n.uplink = some e → e.state = .handshaking ∨ e.state = .established
  behind : n.uplink.isSome = true → ∀ k, Hub.Behind (toldBy k commands none) (n.hub.shows k)
  told : ∀ e, n.uplink = some e → e.state = .established →
    ∀ k, toldBy k commands none = n.hub.shows k

variable {n : Node} {commands : List HostCommand}

/-- What a step sends goes after what was sent on the connection. -/
theorem Followed.of_next {n' : Node} {label : Label} {calls : List HostLink.Effect}
    (hnext : n.next label = (n', calls))
    (hf : Followed n' ((if n.uplink.isSome then commands else []) ++ attempted calls)) :
    Followed (sent (n, commands) label).1 (sent (n, commands) label).2 := by
  rw [sent]
  dsimp only
  rw [step, effects, hnext]
  exact hf

/-- A step that changes no user and tells of nobody keeps the parent where it is. -/
theorem Followed.of_silent (hf : Followed n commands) {n' : Node} {label : Label}
    {calls : List HostLink.Effect} (hnext : n.next label = (n', calls)) (hhub : n'.hub = n.hub)
    (hqueue : ∀ work ∈ n'.queue, ∃ event, work = .event event ∧ event.isLocal = true)
    (huplink : ∀ e', n'.uplink = some e' → ∃ e, n.uplink = some e ∧ e'.state = e.state)
    (hsaid : ∀ c ∈ attempted calls, ∀ k known, c.tells k known = known) :
    Followed (sent (n, commands) label).1 (sent (n, commands) label).2 := by
  have htold : n.uplink.isSome = true → ∀ k,
      toldBy k ((if n.uplink.isSome then commands else []) ++ attempted calls) none =
        toldBy k commands none := by
    intro hup k
    rw [if_pos hup, toldBy_append, toldBy_eq_self fun c hc => hsaid c hc k]
  refine .of_next hnext ⟨hhub ▸ hf.home, hqueue, fun e' he' => ?_, fun hup k => ?_,
    fun e' he' hestablished k => ?_⟩
  · obtain ⟨e, he, hstate⟩ := huplink e' he'
    rw [hstate]
    exact hf.isOpen e he
  · obtain ⟨e', he'⟩ := Option.isSome_iff_exists.mp hup
    obtain ⟨e, he, -⟩ := huplink e' he'
    have hwas : n.uplink.isSome = true := by rw [he]; rfl
    rw [htold hwas, hhub]
    exact hf.behind hwas k
  · obtain ⟨e, he, hstate⟩ := huplink e' he'
    have hwas : n.uplink.isSome = true := by rw [he]; rfl
    rw [htold hwas, hhub]
    exact hf.told e he (hstate.symm.trans hestablished) k

/-- The connection to the parent is lost. -/
theorem Followed.of_lost (hf : Followed n commands) {label : Label}
    {calls : List HostLink.Effect} (hnext : n.next label = ({ n with uplink := none }, calls)) :
    Followed (sent (n, commands) label).1 (sent (n, commands) label).2 := by
  have hnone : ∀ e, ({ n with uplink := none } : Node).uplink ≠ some e :=
    fun e => (Option.some_ne_none e).symm
  refine .of_next hnext ⟨hf.home, hf.queue, fun e he => absurd he (hnone e), fun hup => ?_,
    fun e he => absurd he (hnone e)⟩
  exact absurd hup Bool.false_ne_true

/-- A step that does nothing. -/
theorem Followed.of_stays (hf : Followed n commands) {label : Label}
    (hnext : n.next label = (n, [])) :
    Followed (sent (n, commands) label).1 (sent (n, commands) label).2 :=
  hf.of_silent hnext rfl hf.queue (fun e he => ⟨e, he, rfl⟩) nofun

/-- **A drained event** is told as it is shown. If the link is down the parent is not told, and is
behind from then on. -/
theorem Followed.drain (hf : Followed n commands) {now : DateTimeOffset}
    (hhome : n.AtHome (.drain now)) (hsingle : n.hub.Single)
    (hsingle' : (n.step (.drain now)).hub.Single) :
    Followed (sent (n, commands) (.drain now)).1 (sent (n, commands) (.drain now)).2 := by
  rcases hqueue : n.queue with _ | ⟨work, queue⟩
  · have hnext : n.next (.drain now) = (n, []) := by rw [next, Node.drain, hqueue]
    exact hf.of_stays hnext
  have hrest : ∀ work ∈ queue, ∃ event, work = .event event ∧ event.isLocal = true :=
    fun w hw => hf.queue w (hqueue ▸ List.mem_cons_of_mem _ hw)
  obtain ⟨e, rfl, he⟩ := hf.queue work (by rw [hqueue]; simp)
  have hjoin : ∀ sessionId callsign channel, e = .localJoin sessionId callsign channel →
      Callsigns.isValidName callsign = true ∧ n.hub.sessions.find? sessionId = none := by
    rintro sessionId callsign channel rfl
    rw [AtHome, hqueue] at hhome
    exact hhome
  have hnext : n.next (.drain now) = ({ n with hub := Hub.step n.hub (now, e), queue := queue },
      (HostLink.drainLocalEvent n.links HostLink.isLoggableLocal HostLink.allSucceed now n.hub
        e).2.effects) := by
    rw [next, Node.drain, hqueue]
    dsimp only
    rw [HostLink.hub_drainLocalEvent]
  rw [Node.step, hnext] at hsingle'
  have htold : n.uplink.isSome = true → ∀ k, toldBy k ((if n.uplink.isSome then commands else []) ++
      attempted (HostLink.drainLocalEvent n.links HostLink.isLoggableLocal HostLink.allSucceed now
        n.hub e).2.effects) none =
          ((Hub.said now n.hub e).map fun a => a.tells k (toldBy k commands none)).getD
            (toldBy k commands none) := by
    intro hup k
    have hlink : n.links.uplink = true := hup
    rw [HostLink.attempted_drainLocalEvent n.links now n.hub he, if_pos hup, if_pos hlink,
      toldBy_append, HostLink.toldBy_said]
  refine .of_next hnext ⟨hf.home.step he hsingle hsingle' hjoin, hrest, hf.isOpen,
    fun hup k => ?_, fun engine hengine hestablished k => ?_⟩
  · rw [htold hup]
    exact (hf.home.behind_step he hsingle' hjoin k (hf.behind hup k)).1
  · have hup : n.uplink.isSome = true := Option.isSome_iff_exists.mpr ⟨engine, hengine⟩
    rw [htold hup]
    exact (hf.home.behind_step he hsingle' hjoin k (hf.behind hup k)).2
      (hf.told engine hengine hestablished k)

/-- **A line of the parent**, or of the handshake that makes it one. The announcement goes out
behind the last reply of the handshake. -/
theorem Followed.uplinkLine (hf : Followed n commands) {now : DateTimeOffset} {line : Text}
    (hcontent : PeerRelay.contentOf line = none) :
    Followed (sent (n, commands) (.uplinkLine now line)).1
      (sent (n, commands) (.uplinkLine now line)).2 := by
  rcases huplink : n.uplink with _ | e
  · have hnext : n.next (.uplinkLine now line) = (n, []) := by rw [next, huplink]
    exact hf.of_stays hnext
  rcases hread : e.onLineReceived now line with fault | ⟨engine, step⟩
  · -- the exception ends the connection
    have hnext : n.next (.uplinkLine now line) = ({ n with uplink := none }, []) := by
      rw [next, huplink]
      dsimp only
      rw [HostLink.receiveLine, hread]
    exact hf.of_lost hnext
  have hne : e.state ≠ .disconnected := by
    rcases hf.isOpen e huplink with hopen | hopen <;> rw [hopen] <;> rintro ⟨⟩
  obtain ⟨hstate, -⟩ := HostLinkEngine.state_of_line hne hread
  obtain ⟨hhub, htells⟩ := HostLink.receiveLine_linkLocal n.links now n.hub hcontent hread
  have hleft : (HostLink.receiveLine n.links now e n.hub line).1 =
      if step.dropReason = none then some engine else none := by
    rw [HostLink.receiveLine, hread]
    dsimp only
    rcases step.dropReason with _ | reason <;> rfl
  have hnext : n.next (.uplinkLine now line) =
      ({ n with uplink := if step.dropReason = none then some engine else none },
        (HostLink.receiveLine n.links now e n.hub line).2.2) := by
    rw [next, huplink]
    dsimp only
    rw [hhub, hleft]
  have hup : n.uplink.isSome = true := Option.isSome_iff_exists.mpr ⟨e, huplink⟩
  have hbehind := hf.behind hup
  have htold : ∀ k, toldBy k ((if n.uplink.isSome then commands else []) ++
      attempted (HostLink.receiveLine n.links now e n.hub line).2.2) none =
        if step.dropReason = none ∧ step.handshakeCompleted = true then n.hub.shows k
        else toldBy k commands none := by
    intro k
    rw [if_pos hup, toldBy_append, htells]
    split
    · exact hf.home.toldBy_onEstablished k (hbehind k)
    · rfl
  rcases hdrop : step.dropReason with _ | reason
  · rw [hdrop] at htold hnext
    rw [if_pos rfl] at hnext
    refine .of_next hnext ⟨hf.home, hf.queue, fun e' he' => ?_, fun _ k => ?_,
      fun e' he' hestablished k => ?_⟩
    · cases he'
      rw [hstate]
      split
      · exact Or.inr rfl
      · exact hf.isOpen e huplink
    · rw [htold]
      split
      · exact Or.inr (Or.inl rfl)
      · exact hbehind k
    · cases he'
      rw [htold]
      rcases hcompleted : step.handshakeCompleted with _ | _
      · rw [hcompleted, if_neg Bool.false_ne_true] at hstate
        rw [if_neg fun hbad => Bool.false_ne_true hbad.2]
        exact hf.told e huplink (hstate.symm.trans hestablished) k
      · exact if_pos ⟨rfl, rfl⟩
  · rw [hdrop, if_neg (Option.some_ne_none reason)] at hnext
    exact hf.of_lost hnext

/-- **A connection begins**: the parent knows nobody, and is behind. Nothing is told before it has
greeted. -/
theorem Followed.connect (hf : Followed n commands) (now : DateTimeOffset) :
    Followed (sent (n, commands) (.connect now)).1 (sent (n, commands) (.connect now)).2 := by
  rcases huplink : n.uplink with _ | e
  · have hnext : n.next (.connect now) =
        ({ n with uplink := some ((HostLinkEngine.new n.options false).startHandshake now) },
          [.uplink ((HostLinkEngine.new n.options false).handshake) true]) := by
      rw [next, huplink]
      rfl
    have hnobody : ∀ k, toldBy k ((if n.uplink.isSome then commands else []) ++
        attempted [.uplink ((HostLinkEngine.new n.options false).handshake) true]) none = none := by
      intro k
      rw [huplink]
      rfl
    refine .of_next hnext ⟨hf.home, hf.queue, fun e he => ?_, fun _ k => Or.inl (hnobody k),
      fun e he hbad => ?_⟩
    · cases he
      exact Or.inl rfl
    · cases he
      cases hbad
  · have hnext : n.next (.connect now) = (n, []) := by rw [next, huplink]
    exact hf.of_stays hnext

/-- **The timer of the uplink** pings, or ends the connection. Neither moves a user, nor does the
hub hear of it. -/
theorem Followed.uplinkTick (hf : Followed n commands) (now : DateTimeOffset) :
    Followed (sent (n, commands) (.uplinkTick now)).1 (sent (n, commands) (.uplinkTick now)).2 := by
  rcases huplink : n.uplink with _ | e
  · have hnext : n.next (.uplinkTick now) = (n, []) := by rw [next, huplink]
    exact hf.of_stays hnext
  obtain ⟨hevents, hping⟩ := HostLinkEngine.onTick_pings now e
  have happlied : HostLink.applyStep n.links now n.hub (e.onTick now).2 =
      (n.hub, .calls ((e.onTick now).2.outboundCommands.map (.uplink · true))) := by
    rw [HostLink.applyStep, hevents, HostLink.applyEvents]
    simp [HostLink.Trace.calls, HostLink.Trace.andThen]
  have hnext : n.next (.uplinkTick now) =
      ({ n with uplink := if (e.onTick now).2.dropReason.isSome then none
          else some (e.onTick now).1 },
        (e.onTick now).2.outboundCommands.map (.uplink · true)) := by
    rw [next, huplink]
    dsimp only
    rw [happlied]
    rfl
  refine hf.of_silent hnext rfl hf.queue (fun e' he' => ⟨e, huplink, ?_⟩) fun c hc => ?_
  · dsimp only at he'
    split at he'
    · cases he'
    · cases he'
      exact HostLinkEngine.state_onTick now e
  · have hcalls : attempted ((e.onTick now).2.outboundCommands.map (.uplink · true)) =
        (e.onTick now).2.outboundCommands := by
      simp [attempted, List.filterMap_map]
    rw [hcalls] at hc
    rw [hping c hc]
    exact fun _ _ => rfl

/-- **Every step keeps the parent with our table.** There is one lemma above for each kind of step.
-/
theorem Followed.step (hf : Followed n commands) {label : Label} (hhome : n.AtHome label)
    (hsingle : n.hub.Single) (hsingle' : (n.step label).hub.Single) :
    Followed (sent (n, commands) label).1 (sent (n, commands) label).2 := by
  cases label with
  | submit event =>
    have hnext : n.next (.submit event) = (n.enqueueWork (.event event), []) := rfl
    refine hf.of_silent hnext rfl (fun work hwork => ?_) (fun e he => ⟨e, he, rfl⟩) nofun
    rcases List.mem_append.mp hwork with hwork | hwork
    · exact hf.queue work hwork
    · exact ⟨event, List.mem_singleton.mp hwork, hhome⟩
  | drain now => exact hf.drain hhome hsingle hsingle'
  | connect now => exact hf.connect now
  | uplinkLine now line => exact hf.uplinkLine hhome
  | uplinkTick now => exact hf.uplinkTick now
  | uplinkLoss =>
    have hnext : n.next .uplinkLoss = ({ n with uplink := none }, []) := rfl
    exact hf.of_lost hnext
  | _ => cases hhome

/-- **The parent mirrors our users.** A node with no other host than its parent, whose name
and whose callsigns are valid, is run through any local events, losses and reconnections, no
callsign having two sessions at a time; whenever the link is established, a hub of another
name that knew nobody and is told what was sent since the connection began shows our users,
with their channels and their away texts, and nobody else. Work that is queued is not shown
on either side. -/
theorem mirrors_of_atHome (options : HostLinkOptions) {hostName : Text}
    {store : Option ConversStore} {start : Hub} (hnew : Hub.new hostName store = .ok start)
    (hvalid : Callsigns.isValidName hostName = true) {labels : List Label}
    (hhome : ∀ p ∈ Run.trace sent (Node.new options start, []) labels, p.1.1.AtHome p.2)
    (hsingle : ∀ p ∈ Run.trace sent (Node.new options start, []) labels, p.1.1.hub.Single)
    (hlast : (Run.final sent (Node.new options start, []) labels).1.hub.Single)
    {engine : HostLinkEngine}
    (huplink : (Run.final sent (Node.new options start, []) labels).1.uplink = some engine)
    (hestablished : engine.state = .established) (now : DateTimeOffset) {viewer : Text}
    (hviewer : Callsigns.normalize viewer ≠
      (Run.final sent (Node.new options start, []) labels).1.hub.hostName) :
    (Run.final sent (Node.new options start, []) labels).1.hub.Mirrors
      (Hub.view now viewer (Run.final sent (Node.new options start, []) labels).2) := by
  have hstart : Followed (Node.new options start) [] := by
    have hnone : ∀ e, (Node.new options start).uplink ≠ some e :=
      fun e => (Option.some_ne_none e).symm
    refine ⟨Hub.home_of_new hnew hvalid, fun work hwork => absurd hwork List.not_mem_nil,
      fun e he => absurd he (hnone e), fun hup => absurd hup Bool.false_ne_true,
      fun e he => absurd he (hnone e)⟩
  have hnext := Run.forall_step (P := fun p : Node × List HostCommand => p.1.hub.Single) hsingle
    hlast
  have hf := (Run.invariant (I := fun p : Node × List HostCommand => Followed p.1 p.2) hstart labels
    fun p hp hf => hf.step (hhome p hp) (hsingle p hp) (hnext p hp)).2
  generalize Run.final sent (Node.new options start, []) labels = last at huplink hviewer hf ⊢
  have hviewed : ∀ k, (Hub.view now viewer last.2).shows k =
      if k.2 = Callsigns.normalize viewer then none else last.1.hub.shows k := by
    intro k
    rw [Hub.shows_view, hf.told engine huplink hestablished k]
  exact hf.home.mirrors hviewed hviewer

/-- A node without users. -/
def exampleStart : Node :=
  Node.new (HostLinkOptions.ofHostName "NODE".toList) (Hub.fresh "NODE".toList)

/-- A user joins, the connection to the parent begins, he sets his away text, and the parent
answers the handshake. -/
def exampleHomecoming : List Label :=
  [.submit (.localJoin "rf-1".toList "m0abc".toList 7), .drain Hub.exampleMoment,
    .connect Hub.exampleMoment, .submit (.localSetAway "rf-1".toList "lunch".toList),
    .drain Hub.exampleMoment,
    .uplinkLine Hub.exampleMoment "/..HOST FAR saupp1.62a Aadmnp".toList]

/-- The parent has the user of this run, on his channel and with the away text he set while the
handshake was under way. -/
theorem mirrors_exampleHomecoming :
    (Run.final sent (exampleStart, []) exampleHomecoming).1.hub.Mirrors
      (Hub.view Hub.exampleMoment "FAR".toList
        (Run.final sent (exampleStart, []) exampleHomecoming).2) := by
  have hone : ∀ h : Hub, h.sessions.records.length ≤ 1 → h.Single := by
    intro h hlength s t hs ht _
    have hmem := Table.mem_of_find? hs
    have hmem' := Table.mem_of_find? ht
    rcases hrecords : h.sessions.records with _ | ⟨a, _ | ⟨b, l⟩⟩
    · rw [hrecords] at hmem
      cases hmem
    · rw [hrecords, List.mem_singleton] at hmem hmem'
      rw [hmem, hmem']
    · rw [hrecords] at hlength
      exact absurd hlength (by simp)
  have hlink : (Run.final sent (exampleStart, []) exampleHomecoming).1.uplink.map
      HostLinkEngine.state = some .established := by
    decide +kernel
  obtain ⟨engine, hengine, hestablished⟩ := Option.map_eq_some_iff.mp hlink
  refine mirrors_of_atHome _ (@Hub.new_none "NODE".toList rfl) ?_ ?_ (fun p hp => ?_)
    ?_ hengine hestablished _ ?_
  · decide
  · decide +kernel
  · have hlengths : ∀ p ∈ Run.trace sent (exampleStart, []) exampleHomecoming,
        p.1.1.hub.sessions.records.length ≤ 1 := by
      decide +kernel
    exact hone _ (hlengths p hp)
  · exact hone _ (by decide +kernel)
  · decide +kernel

end Node

end Convers
