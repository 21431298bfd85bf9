import Convers.Core.Authority
import Convers.Protocol.Unbroken

/-!
# Hubs without line breaks

What a hub announces is put together from texts it has kept, of its sessions, its channels and its
store, and from those of the event. When no line break is among them (`Convers.Hub.Unbroken`), then
there is none in what it announces (`Convers.Hub.Unbroken.announcement`), and an event without one
leaves the hub so (`Convers.Hub.Unbroken.step`).
-/

namespace Convers

namespace IsUnbroken

variable {t : Text}

theorem normalize (h : IsUnbroken t) : IsUnbroken (Callsigns.normalize t) := by
  rw [Callsigns.normalize]
  split
  · exact .nil
  · exact h.trim.toUpperInvariant

theorem resolvePersonal (h : IsUnbroken t) : IsUnbroken (Hub.resolvePersonal t) := by
  rw [Hub.resolvePersonal]
  split
  · exact .nil
  · exact h.trim

theorem makePersonalConsistent (h : IsUnbroken t) :
    IsUnbroken (Hub.makePersonalConsistent t) := by
  rw [Hub.makePersonalConsistent]
  split
  · exact (h.trim.dropWhile _).trimStart
  · exact h.trim

end IsUnbroken

theorem isUnbroken_toWire (modes : ChannelMode) : IsUnbroken (ChannelModes.toWire modes) := by
  have hletters : ∀ entry ∈ ChannelModes.letters, isTerminator entry.2 = false := by decide
  rw [ChannelModes.toWire]
  split
  · decide
  · rintro c (_ | ⟨_, hc⟩)
    · rfl
    · obtain ⟨entry, hentry, rfl⟩ := List.mem_map.mp hc
      exact hletters entry (List.mem_of_mem_filter hentry)

/-- The texts of an event, but for the id of the session. -/
def ConversEvent.texts : ConversEvent → List Text
  | localJoin _ callsign _ => [callsign]
  | localSay _ text | localSetPersonal _ text | localSetAway _ text | localSetTopic _ text
  | localSetMode _ _ text | localLeave _ text => [text]
  | localPrivateMessage _ toUser text => [toUser, text]
  | localInvite _ toUser _ => [toUser]
  | hostUser user host _ _ _ personal _ => [user, host, personal]
  | hostChannelMessage user _ text => [user, text]
  | hostPrivateMessage source target text => [source, target, text]
  | hostPersonal user host text | hostAway user host _ text | hostTopic user host _ _ text =>
    [user, host, text]
  | hostInvite source user _ => [source, user]
  | hostMode _ options => [options]
  | hostOper user host _ _ => [user, host]
  | hostLoop host => [host]
  | hostUnknown raw => [raw]
  | localSwitchChannel .. | localSetOperator .. | hostPing | hostPong _ => []

/-- No text of the event has a line break. -/
def ConversEvent.Unbroken (e : ConversEvent) : Prop := ∀ t ∈ e.texts, IsUnbroken t

instance (e : ConversEvent) : Decidable e.Unbroken :=
  inferInstanceAs (Decidable (∀ t ∈ e.texts, IsUnbroken t))

/-- The texts that an action sends. -/
def ConversAction.sent : ConversAction → List Text
  | sendUser user host _ _ _ text | sendPersonal user host text | sendAway user host _ text
  | sendTopic user host _ _ text | sendPrivateMessage user host text => [user, host, text]
  | sendChannelMessage user _ text => [user, text]
  | sendInvite source user _ => [source, user]
  | sendMode _ options => [options]
  | _ => []

/-- No text that the action sends has a line break. -/
def ConversAction.Unbroken (a : ConversAction) : Prop := ∀ t ∈ a.sent, IsUnbroken t

/-- No text of the session has a line break. -/
structure LocalSession.Unbroken (s : LocalSession) : Prop where
  callsign : IsUnbroken s.callsign
  personal : IsUnbroken s.personal
  nickname : IsUnbroken s.nickname
  away : IsUnbroken s.away

/-- No text of the user has a line break. -/
structure NetworkUser.Unbroken (u : NetworkUser) : Prop where
  name : IsUnbroken u.name
  host : IsUnbroken u.host
  personal : IsUnbroken u.personal
  nickname : IsUnbroken u.nickname
  away : IsUnbroken u.away

/-- No text of the topic has a line break. -/
structure ChannelState.Unbroken (c : ChannelState) : Prop where
  topic : IsUnbroken c.topic
  topicSetBy : IsUnbroken c.topicSetBy

/-- No text that the store keeps has a line break. -/
structure ConversStore.Unbroken (s : ConversStore) : Prop where
  profiles : s.profiles.All fun p => IsUnbroken p.personal ∧ IsUnbroken p.nickname
  topics : s.topics.All fun t => IsUnbroken t.topic ∧ IsUnbroken t.setBy

theorem ConversStore.Unbroken.upsertProfile {s s' : ConversStore} (h : s.Unbroken)
    {profile : UserProfile} (hpersonal : IsUnbroken profile.personal)
    (hnickname : IsUnbroken profile.nickname) (hput : s.upsertProfile profile = .ok s') :
    s'.Unbroken := by
  unfold ConversStore.upsertProfile at hput
  dsimp only at hput
  split at hput
  · cases hput
  · cases hput
    exact ⟨h.profiles.put ⟨hpersonal, hnickname⟩, h.topics⟩

namespace Hub

/-- **No text that the hub keeps has a line break.** -/
structure Unbroken (h : Hub) : Prop where
  hostName : IsUnbroken h.hostName
  sessions : h.sessions.All LocalSession.Unbroken
  users : h.users.All NetworkUser.Unbroken
  channels : h.channels.All fun entry => entry.2.Unbroken
  store : ∀ s ∈ h.store, s.Unbroken

variable {h : Hub} {now : DateTimeOffset} {e : ConversEvent}

theorem unbroken_new {hostName : Text} (hname : IsUnbroken hostName) {store : Option ConversStore}
    (hstore : ∀ s ∈ store, s.Unbroken) (hnew : new hostName store = .ok h) : h.Unbroken := by
  unfold new at hnew
  split at hnew
  · cases hnew
  · cases hnew
    refine ⟨hname.normalize, Table.all_empty, Table.all_empty, ?_, hstore⟩
    dsimp only
    rcases store with _ | s
    · exact Table.all_empty
    · have hfold : ∀ (rows : List StoredTopic) (channels : Table.Dict Int32 ChannelState),
          (∀ row ∈ rows, IsUnbroken row.topic ∧ IsUnbroken row.setBy) →
          channels.All (fun entry => entry.2.Unbroken) →
          (rows.foldl (fun channels t => channels.set t.channel
            { ChannelState.new with
              topic := t.topic, topicSetBy := t.setBy, topicSetAt := some t.setAt })
            channels).All fun entry => entry.2.Unbroken := by
        intro rows
        induction rows with
        | nil => exact fun channels _ hchannels => hchannels
        | cons row rows ih =>
          intro channels hrows hchannels
          obtain ⟨htopic, hsetBy⟩ := hrows row List.mem_cons_self
          exact ih _ (fun r hr => hrows r (List.mem_cons_of_mem _ hr))
            (hchannels.put ⟨htopic, hsetBy⟩)
      exact hfold _ _ (fun row hrow => (hstore s rfl).topics row hrow) Table.all_empty

/-! ### The updates -/

namespace Unbroken

variable (hu : h.Unbroken)

include hu

theorem localUser {s : LocalSession} (hs : s.Unbroken) : (h.localUser s).Unbroken :=
  ⟨hs.callsign, hu.hostName, hs.personal, hs.nickname, hs.away⟩

theorem storeSession {s : LocalSession} (hs : s.Unbroken) : (h.storeSession s).Unbroken where
  hostName := hu.hostName
  sessions := hu.sessions.put hs
  users := hu.users.put (hu.localUser hs)
  channels := hu.channels
  store := hu.store

theorem dropSession (s : LocalSession) : (h.dropSession s).Unbroken where
  hostName := hu.hostName
  sessions := hu.sessions.remove _
  users := hu.users.remove _
  channels := hu.channels
  store := hu.store

theorem withUsers {users : Table NetworkUser.key} (husers : users.All NetworkUser.Unbroken) :
    { h with users := users }.Unbroken :=
  ⟨hu.hostName, hu.sessions, husers, hu.channels, hu.store⟩

theorem channelState (channel : Int32) : (h.channelState channel).Unbroken := by
  rw [Hub.channelState, Table.Dict.get?]
  rcases hfind : h.channels.find? channel with _ | entry
  · exact ⟨.nil, .nil⟩
  · exact hu.channels.find? hfind

theorem setModes (channel : Int32) (modes : ChannelMode) : (h.setModes channel modes).Unbroken where
  hostName := hu.hostName
  sessions := hu.sessions
  users := hu.users
  channels :=
    hu.channels.put ⟨(hu.channelState channel).topic, (hu.channelState channel).topicSetBy⟩
  store := hu.store

theorem applyTopic {topic setBy : Text} (htopic : IsUnbroken topic) (hsetBy : IsUnbroken setBy)
    (channel : Int32) (setAt : DateTimeOffset) :
    (h.applyTopic channel topic setBy setAt).Unbroken where
  hostName := hu.hostName
  sessions := hu.sessions
  users := hu.users
  channels := hu.channels.put ⟨htopic, hsetBy⟩
  store s hs := by
    obtain ⟨s, hstore, rfl⟩ := Option.mem_map.mp hs
    obtain ⟨hprofiles, htopics⟩ := hu.store s hstore
    have hput := htopics.put (a := (⟨channel, topic, Callsigns.normalize setBy,
      setAt.wholeSeconds⟩ : StoredTopic)) ⟨htopic, hsetBy.normalize⟩
    rw [ConversStore.upsertTopic]
    split
    · split
      · exact ⟨hprofiles, htopics⟩
      · exact ⟨hprofiles, hput⟩
    · exact ⟨hprofiles, hput⟩

theorem getProfile (call : Text) :
    IsUnbroken (((h.store.bind (·.getProfile call)).map UserProfile.personal).getD []) ∧
      IsUnbroken (((h.store.bind (·.getProfile call)).map UserProfile.nickname).getD []) := by
  rcases hfind : h.store.bind (·.getProfile call) with _ | profile
  · exact ⟨.nil, .nil⟩
  · obtain ⟨s, hs, hprofile⟩ := Option.bind_eq_some_iff.mp hfind
    exact (hu.store s hs).profiles.find? hprofile

theorem persistProfile {s : LocalSession} (hs : s.Unbroken) {h' : Hub}
    (hpersist : h.persistProfile now s = .ok h') : h'.Unbroken := by
  rw [Hub.persistProfile] at hpersist
  split at hpersist
  · cases hpersist
    exact hu
  · rename_i store hstore
    dsimp only at hpersist
    generalize hput : store.upsertProfile _ = kept at hpersist
    rcases kept with fault | store'
    · cases hpersist
    · cases hpersist
      refine ⟨hu.hostName, hu.sessions, hu.users, hu.channels, ?_⟩
      rintro _ ⟨⟩
      exact (hu.store store hstore).upsertProfile hs.personal hs.nickname hput

/-- A step for each of the sessions there are. -/
theorem foldl_sessions {f : Hub → LocalSession → Hub}
    (hf : ∀ (h' : Hub) (s : LocalSession), h'.Unbroken → s.Unbroken → (f h' s).Unbroken) :
    (h.sessions.records.foldl f h).Unbroken := by
  have hfold : ∀ (sessions : List LocalSession) (h' : Hub), h'.Unbroken →
      (∀ s ∈ sessions, s.Unbroken) → (sessions.foldl f h').Unbroken := by
    intro sessions
    induction sessions with
    | nil => exact fun h' hh' _ => hh'
    | cons s sessions ih =>
      exact fun h' hh' hs => ih _ (hf h' s hh' (hs s List.mem_cons_self))
        fun t ht => hs t (List.mem_cons_of_mem _ ht)
  exact hfold _ h hu hu.sessions

theorem applyOperator (call : Text) (channel : Int32) (grant : Bool) :
    (h.applyOperator call channel grant).Unbroken := by
  rw [Hub.applyOperator]
  dsimp only
  split
  · exact ⟨hu.hostName, hu.sessions, hu.users, hu.channels, hu.store⟩
  · split
    · exact ⟨hu.hostName, hu.sessions, hu.users, hu.channels, hu.store⟩
    · split
      · exact ⟨hu.hostName, hu.sessions, hu.users, hu.channels, hu.store⟩
      · exact hu

theorem grantOperator (call : Text) (channel : Int32) (grant : Bool) :
    (h.grantOperator call channel grant).Unbroken := by
  refine (hu.applyOperator call channel grant).foldl_sessions fun h' s hh' hs => ?_
  rw [refreshSession]
  split
  · dsimp only
    split
    · exact hh'.storeSession ⟨hs.callsign, hs.personal, hs.nickname, hs.away⟩
    · exact hh'
  · exact hh'

theorem recordInvite (user : Text) (channel : Int32) : (h.recordInvite user channel).Unbroken := by
  have hinvited : (h.withInvite user channel).Unbroken :=
    ⟨hu.hostName, hu.sessions, hu.users, hu.channels, hu.store⟩
  refine hinvited.foldl_sessions fun h' s hh' hs => ?_
  split
  · exact ⟨hh'.hostName, hh'.sessions.put ⟨hs.callsign, hs.personal, hs.nickname, hs.away⟩,
      hh'.users, hh'.channels, hh'.store⟩
  · exact hh'

/-! ### The events -/

/-- **What is announced has no line break.** The lines that a host writes are made of it. -/
theorem announcement (he : e.Unbroken) {a : ConversAction} (ha : h.announcement now e = some a) :
    a.Unbroken := by
  have hsession {sessionId : Text} {f : LocalSession → ConversAction}
      (hf : ∀ s : LocalSession, s.Unbroken → (f s).Unbroken)
      (ha : (h.sessions.find? sessionId).map f = some a) : a.Unbroken := by
    obtain ⟨s, hs, rfl⟩ := Option.map_eq_some_iff.mp ha
    exact hf s (hu.sessions.find? hs)
  have hnil := List.forall_mem_nil IsUnbroken
  cases e with
  | localJoin sessionId callsign channel =>
    cases ha
    have hcall : IsUnbroken callsign := List.forall_mem_singleton.mp he
    simp only [ConversAction.Unbroken, ConversAction.sent, List.forall_mem_cons]
    exact ⟨hcall.normalize, hu.hostName, (hu.getProfile _).1, hnil⟩
  | localSwitchChannel sessionId channel =>
    refine hsession (fun s hs => ?_) ha
    simp only [ConversAction.Unbroken, ConversAction.sent, List.forall_mem_cons]
    exact ⟨hs.callsign, hu.hostName, hs.personal, hnil⟩
  | localSay sessionId text =>
    refine hsession (fun s hs => ?_) ha
    simp only [ConversAction.Unbroken, ConversAction.sent, List.forall_mem_cons]
    exact ⟨hs.callsign, List.forall_mem_singleton.mp he, hnil⟩
  | localPrivateMessage sessionId toUser text =>
    obtain ⟨hto, htext⟩ := List.forall_mem_cons.mp he
    refine hsession (fun s hs => ?_) ha
    simp only [ConversAction.Unbroken, ConversAction.sent, List.forall_mem_cons]
    exact ⟨hs.callsign, hto.normalize, List.forall_mem_singleton.mp htext, hnil⟩
  | localSetPersonal sessionId personal =>
    have hpersonal : IsUnbroken personal := List.forall_mem_singleton.mp he
    refine hsession (fun s hs => ?_) ha
    simp only [ConversAction.Unbroken, ConversAction.sent, List.forall_mem_cons]
    exact ⟨hs.callsign, hu.hostName, hpersonal.makePersonalConsistent, hnil⟩
  | localSetAway sessionId text | localSetTopic sessionId text =>
    have htext : IsUnbroken text := List.forall_mem_singleton.mp he
    refine hsession (fun s hs => ?_) ha
    simp only [ConversAction.Unbroken, ConversAction.sent, List.forall_mem_cons]
    exact ⟨hs.callsign, hu.hostName, htext.trim, hnil⟩
  | localInvite sessionId toUser channel =>
    have hto : IsUnbroken toUser := List.forall_mem_singleton.mp he
    refine hsession (fun s hs => ?_) ha
    simp only [ConversAction.Unbroken, ConversAction.sent, List.forall_mem_cons]
    exact ⟨hs.callsign, hto.normalize, hnil⟩
  | localSetMode sessionId channel options =>
    cases ha
    exact List.forall_mem_singleton.mpr (isUnbroken_toWire _)
  | localLeave sessionId reason =>
    refine hsession (fun s hs => ?_) ha
    simp only [ConversAction.Unbroken, ConversAction.sent, List.forall_mem_cons]
    exact ⟨hs.callsign, hu.hostName, List.forall_mem_singleton.mp he, hnil⟩
  | _ => cases ha

/-! ### One lemma for each handler that writes a text -/

theorem localJoin {callsign : Text} (hcall : IsUnbroken callsign) (sessionId : Text)
    (channel : Int32) : (h.localJoin now sessionId callsign channel).hub.Unbroken := by
  simp only [Hub.localJoin]
  split
  · exact hu
  · split
    · exact hu
    · exact hu.storeSession ⟨hcall.normalize, (hu.getProfile _).1, (hu.getProfile _).2, .nil⟩

theorem localSwitchChannel (sessionId : Text) (channel : Int32) :
    (h.localSwitchChannel now sessionId channel).hub.Unbroken := by
  simp only [Hub.localSwitchChannel]
  split
  · exact hu
  · rename_i s hs
    obtain ⟨hcall, hpersonal, hnickname, haway⟩ := hu.sessions.find? hs
    split
    · exact hu
    · split
      · exact hu
      · split
        · exact hu
        · exact hu.storeSession ⟨hcall, hpersonal, hnickname, haway⟩

theorem localSetPersonal {personal : Text} (hpersonal : IsUnbroken personal) (sessionId : Text) :
    (h.localSetPersonal now sessionId personal).hub.Unbroken := by
  simp only [Hub.localSetPersonal]
  split
  · exact hu
  · rename_i s hs
    obtain ⟨hcall, -, hnickname, haway⟩ := hu.sessions.find? hs
    have hs' : LocalSession.Unbroken { s with personal := Hub.makePersonalConsistent personal } :=
      ⟨hcall, hpersonal.makePersonalConsistent, hnickname, haway⟩
    split
    · exact hu.storeSession hs'
    · rename_i hpersist
      exact (hu.storeSession hs').persistProfile hs' hpersist

theorem localSetAway {away : Text} (haway : IsUnbroken away) (sessionId : Text) :
    (h.localSetAway now sessionId away).hub.Unbroken := by
  simp only [Hub.localSetAway]
  split
  · exact hu
  · rename_i s hs
    obtain ⟨hcall, hpersonal, hnickname, -⟩ := hu.sessions.find? hs
    exact hu.storeSession ⟨hcall, hpersonal, hnickname, haway.trim⟩

theorem localSetTopic {topic : Text} (htopic : IsUnbroken topic) (sessionId : Text) :
    (h.localSetTopic now sessionId topic).hub.Unbroken := by
  simp only [Hub.localSetTopic]
  split
  · exact hu
  · rename_i s hs
    split
    · exact hu
    · exact hu.applyTopic htopic.trim (hu.sessions.find? hs).callsign _ _

theorem localLeave (sessionId reason : Text) :
    (h.localLeave now sessionId reason).hub.Unbroken := by
  simp only [Hub.localLeave]
  split
  · exact hu
  · rename_i s hs
    obtain rfl : s.id = sessionId := Table.key_of_find? hs
    exact hu.dropSession s

/-- What is known of the user is kept where the event says nothing of it. -/
theorem hostUser {user host personal : Text} (huser : IsUnbroken user) (hhost : IsUnbroken host)
    (hpersonal : IsUnbroken personal) (timestamp : DateTimeOffset) (source target : Int32)
    (observer : Bool) :
    (h.hostUser user host timestamp source target personal observer).hub.Unbroken := by
  simp only [Hub.hostUser]
  split
  · exact hu
  · split
    · exact hu
    · split
      · split
        · exact hu
        · exact hu.withUsers (hu.users.remove _)
      · split
        · exact hu
        · have hknown : ∀ u ∈ h.users.find? (Callsigns.normalize user, Callsigns.normalize host),
              u.Unbroken := fun u hmem => hu.users.find? hmem
          revert hknown
          generalize h.users.find? (Callsigns.normalize user, Callsigns.normalize host) = known
          intro hknown
          refine hu.withUsers (hu.users.put ?_)
          rcases known with _ | u
          · refine ⟨huser.normalize, hhost.normalize, ?_, .nil, .nil⟩
            dsimp only
            split
            · exact .nil
            · exact hpersonal.resolvePersonal
          · obtain ⟨-, -, hbefore, hnickname, haway⟩ := hknown u rfl
            refine ⟨huser.normalize, hhost.normalize, ?_, hnickname, haway⟩
            dsimp only
            split
            · exact hbefore
            · exact hpersonal.resolvePersonal

theorem hostPersonal {text : Text} (htext : IsUnbroken text) (user host : Text) :
    (h.hostPersonal user host text).hub.Unbroken := by
  simp only [Hub.hostPersonal]
  split
  · exact hu
  · rename_i u hfind
    obtain ⟨hname, hhost, -, hnickname, haway⟩ := hu.users.find? hfind
    exact hu.withUsers (hu.users.put ⟨hname, hhost, htext.resolvePersonal, hnickname, haway⟩)

theorem hostAway {text : Text} (htext : IsUnbroken text) (user host : Text) :
    (h.hostAway user host text).hub.Unbroken := by
  simp only [Hub.hostAway]
  split
  · exact hu
  · rename_i u hfind
    obtain ⟨hname, hhost, hpersonal, hnickname, -⟩ := hu.users.find? hfind
    exact hu.withUsers (hu.users.put ⟨hname, hhost, hpersonal, hnickname, htext.trim⟩)

theorem hostTopic {user text : Text} (huser : IsUnbroken user) (htext : IsUnbroken text)
    (timestamp : DateTimeOffset) (channel : Int32) :
    (h.hostTopic user timestamp channel text).hub.Unbroken := by
  simp only [Hub.hostTopic]
  split
  · exact hu
  · split
    · exact hu
    · exact hu.applyTopic htext.trim huser.normalize _ _

theorem hostOper (user host : Text) (channel : Int32) (grant : Bool) :
    (h.hostOper user host channel grant).hub.Unbroken := by
  simp only [Hub.hostOper]
  split
  · exact hu
  · have hgranted := hu.grantOperator (Callsigns.normalize user) channel grant
    split
    · exact hgranted
    · rename_i u hfind
      obtain ⟨hname, hhost, hpersonal, hnickname, haway⟩ := hgranted.users.find? hfind
      exact hgranted.withUsers
        (hgranted.users.put ⟨hname, hhost, hpersonal, hnickname, haway⟩)

/-- **An event without a line break leaves none**, so a run of such events keeps every text of
the hub on one line. -/
theorem step (he : e.Unbroken) : (step h (now, e)).Unbroken := by
  rw [Hub.step]
  cases e with
  | localJoin sessionId callsign channel =>
    exact hu.localJoin (List.forall_mem_singleton.mp he) sessionId channel
  | localSwitchChannel sessionId channel => exact hu.localSwitchChannel sessionId channel
  | localSetPersonal sessionId personal =>
    exact hu.localSetPersonal (List.forall_mem_singleton.mp he) sessionId
  | localSetAway sessionId away =>
    exact hu.localSetAway (List.forall_mem_singleton.mp he) sessionId
  | localSetTopic sessionId topic =>
    exact hu.localSetTopic (List.forall_mem_singleton.mp he) sessionId
  | localLeave sessionId reason => exact hu.localLeave sessionId reason
  | hostUser user host timestamp source target personal observer =>
    simp only [ConversEvent.Unbroken, ConversEvent.texts, List.forall_mem_cons] at he
    exact hu.hostUser he.1 he.2.1 he.2.2.1 timestamp source target observer
  | hostPersonal user host text =>
    simp only [ConversEvent.Unbroken, ConversEvent.texts, List.forall_mem_cons] at he
    exact hu.hostPersonal he.2.2.1 user host
  | hostAway user host timestamp text =>
    simp only [ConversEvent.Unbroken, ConversEvent.texts, List.forall_mem_cons] at he
    exact hu.hostAway he.2.2.1 user host
  | hostTopic user host timestamp channel text =>
    simp only [ConversEvent.Unbroken, ConversEvent.texts, List.forall_mem_cons] at he
    exact hu.hostTopic he.1 he.2.2.1 timestamp channel
  | hostOper user host channel grant => exact hu.hostOper user host channel grant
  | localSetOperator sessionId channel grant =>
    simp only [advance, localSetOperator]
    split
    · exact hu
    · exact hu.grantOperator _ _ _
  | localInvite | hostInvite =>
    -- an invitation shows a session a channel, and no text
    simp only [advance, localInvite, hostInvite]
    repeat' split
    all_goals first | exact hu | exact hu.recordInvite _ _
  | localSetMode | hostMode =>
    simp only [advance, localSetMode, hostMode]
    repeat' split
    all_goals first | exact hu | exact hu.setModes _ _
  | localSay | localPrivateMessage | hostChannelMessage | hostPrivateMessage | hostPing | hostPong
  | hostLoop | hostUnknown =>
    simp only [advance, localSay, localPrivateMessage, hostChannelMessage, hostPrivateMessage]
    repeat' split
    all_goals exact hu

end Unbroken

end Hub

end Convers
