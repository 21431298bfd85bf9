import Convers.Core.Modes
import Convers.Core.Notices
import Convers.Core.Sightings
import Convers.Core.Topics

/-!
# What every run files

An entry of the user table comes from a session or from an announcement, and is refreshed by
both. `Convers.Hub.Holds` is that a property holds of all the entries there are and of those the
sessions stand for, and what each change of the two tables has to show for it. So the entries
of every run are filed under canonical names, on a channel, with a trimmed away text
(`Convers.Hub.Filed`); the channels have a time with each topic, and modes only where modes can be
set (`Convers.Hub.Charted`).
-/

namespace Convers

namespace Hub

variable {h : Hub}

/-! ### A property of the entries -/

/-- **A property of all entries**: of those of the sessions, and of those in the table. -/
structure Holds (P : NetworkUser → Prop) (h : Hub) : Prop where
  sessions : ∀ s, h.Attached s → P (h.localUser s)
  users : ∀ k u, h.users.find? k = some u → P u

section Holds

variable {P : NetworkUser → Prop}

/-- A hub starts without any. -/
theorem Holds.of_new {hostName : Text} {store : Option ConversStore}
    (hnew : new hostName store = .ok h) : h.Holds P := by
  refine ⟨fun s hs => absurd hs (not_attached_of_new hnew s), fun k u hu => ?_⟩
  rw [users_of_new hnew] at hu
  cases hu

/-- The entries are the concern of a change of the sessions and of the users only. -/
theorem Holds.congr {h' : Hub} (hhost : h'.hostName = h.hostName)
    (hsessions : ∀ s, h'.Attached s → P (h.localUser s))
    (husers : ∀ k u, h'.users.find? k = some u → P u) : h'.Holds P := by
  refine ⟨fun s hs => ?_, husers⟩
  have hlocal : h'.localUser s = h.localUser s := by simp only [localUser, hhost]
  rw [hlocal]
  exact hsessions s hs

theorem Holds.of_roster {h' : Hub} (hh : h.Holds P) (hroster : h'.roster = h.roster) :
    h'.Holds P := by
  refine Holds.congr (hostName_of_roster hroster) (fun s hs => ?_) fun k u hu => ?_
  · rw [Attached, sessions_of_roster hroster] at hs
    exact hh.sessions s hs
  · rw [users_of_roster hroster] at hu
    exact hh.users k u hu

theorem Holds.storeSession (hh : h.Holds P) {s : LocalSession} (hs : P (h.localUser s)) :
    (h.storeSession s).Holds P := by
  refine Holds.congr rfl (fun t ht => ?_) fun k u hu => ?_
  · rw [Attached, find?_sessions_storeSession] at ht
    split at ht
    · cases ht
      exact hs
    · exact hh.sessions t ht
  · rw [find?_users_storeSession] at hu
    split at hu
    · cases hu
      exact hs
    · exact hh.users k u hu

theorem Holds.dropSession (hh : h.Holds P) (s : LocalSession) : (h.dropSession s).Holds P := by
  refine Holds.congr rfl (fun t ht => ?_) fun k u hu => ?_
  · rw [Attached, find?_sessions_dropSession] at ht
    split at ht
    · cases ht
    · exact hh.sessions t ht
  · rw [find?_users_dropSession] at hu
    split at hu
    · cases hu
    · exact hh.users k u hu

theorem Holds.put (hh : h.Holds P) {u : NetworkUser} (hu : P u) :
    { h with users := h.users.put u }.Holds P := by
  refine Holds.congr rfl (fun s hs => hh.sessions s hs) fun k v hv => ?_
  rw [Table.find?_put] at hv
  split at hv
  · cases hv
    exact hu
  · exact hh.users k v hv

theorem Holds.remove (hh : h.Holds P) (k : Text × Text) :
    { h with users := h.users.remove k }.Holds P := by
  refine Holds.congr rfl (fun s hs => hh.sessions s hs) fun k' v hv => ?_
  rw [Table.find?_remove] at hv
  split at hv
  · cases hv
  · exact hh.users k' v hv

/-- A grant is kept by what does not look at the flag. -/
theorem Holds.grantOperator (hh : h.Holds P)
    (hflag : ∀ u flag, P u → P { u with isOperator := flag }) (call : Text) (channel : Int32)
    (grant : Bool) : (h.grantOperator call channel grant).Holds P := by
  refine Holds.congr (hostName_grantOperator h call channel grant) (fun s hs => ?_)
    fun k u hu => ?_
  · obtain ⟨t, ht, rfl⟩ := hs.of_grantOperator
    exact hflag (h.localUser t) _ (hh.sessions t ht)
  · rcases entry_of_grantOperator hu with ⟨s, hs, flag, rfl⟩ | hu
    · exact hflag (h.localUser s) flag (hh.sessions s hs)
    · exact hh.users k u hu

theorem Holds.recordInvite (hh : h.Holds P) (call : Text) (channel : Int32) :
    (h.recordInvite call channel).Holds P := by
  refine Holds.congr (hostName_recordInvite h call channel) (fun s hs => ?_) fun k u hu => ?_
  · rw [Attached, find?_sessions_recordInvite] at hs
    obtain ⟨t, ht, rfl⟩ := Option.map_eq_some_iff.mp hs
    have hentry := hh.sessions t (attached_of_find? ht)
    split
    · exact hentry
    · exact hentry
  · rw [users_recordInvite] at hu
    exact hh.users k u hu

end Holds

/-! ### The entries of a run -/

/-- An entry as it is filed by a host: under canonical names, which are valid for a user of another
host, on a channel, with a trimmed away text. -/
structure Entry (own : Text) (u : NetworkUser) : Prop where
  name : Callsigns.normalize u.name = u.name
  host : Callsigns.normalize u.host = u.host
  channel : ChannelNumber.isValid u.channel = true
  away : trim u.away = u.away
  valid : u.host ≠ own →
    Callsigns.isValidName u.name = true ∧ Callsigns.isValidName u.host = true

/-- **The entries are as they are filed.** -/
structure Filed (h : Hub) : Prop where
  host : Callsigns.normalize h.hostName = h.hostName
  holds : h.Holds (Entry h.hostName)

theorem Filed.canonical (hf : h.Filed) : h.Canonical := fun s hs => (hf.holds.sessions s hs).name

theorem Filed.of_new {hostName : Text} {store : Option ConversStore}
    (hnew : new hostName store = .ok h) : h.Filed := by
  refine ⟨?_, Holds.of_new hnew⟩
  unfold new at hnew
  split at hnew
  · cases hnew
  · cases hnew
    exact Callsigns.normalize_normalize hostName

theorem Entry.flag {own : Text} (u : NetworkUser) (flag : Bool) (hu : Entry own u) :
    Entry own { u with isOperator := flag } :=
  ⟨hu.name, hu.host, hu.channel, hu.away, hu.valid⟩

/-- The entry of a session is of our own host. -/
theorem entry_localUser (hf : h.Filed) {s : LocalSession}
    (hname : Callsigns.normalize s.callsign = s.callsign)
    (hchannel : ChannelNumber.isValid s.channel = true) (haway : trim s.away = s.away) :
    Entry h.hostName (h.localUser s) :=
  ⟨hname, hf.host, hchannel, haway, fun hbad => absurd rfl hbad⟩

/-- A user of another host is filed with the away text there was. -/
theorem entry_hostEntry (hf : h.Filed) {user host : Text} {toChannel : Int32}
    (hlists : h.lists user host toChannel = true) (timestamp : DateTimeOffset) (personal : Text)
    (observer : Bool) :
    Entry h.hostName (h.hostEntry user host timestamp toChannel personal observer) := by
  simp only [lists, Bool.and_eq_true] at hlists
  obtain ⟨⟨⟨hname, hhost⟩, -⟩, hto⟩ := hlists
  refine ⟨Callsigns.normalize_normalize user, Callsigns.normalize_normalize host, hto, ?_,
    fun _ => ⟨hname, hhost⟩⟩
  rw [hostEntry]
  rcases hu : h.users.find? (Callsigns.normalize user, Callsigns.normalize host) with _ | u
  · rfl
  · exact (hf.holds.users _ u hu).away

/-- **One step files what it stores.** So an entry that a run leaves can be looked up under the name
it has. -/
theorem Filed.step (hf : h.Filed) (now : DateTimeOffset) (e : ConversEvent) :
    (step h (now, e)).Filed := by
  refine ⟨(hostName_step h now e).symm ▸ hf.host, ?_⟩
  rw [hostName_step]
  have hquiet : ∀ {h' : Hub}, h'.roster = h.roster → h'.Holds (Entry h.hostName) :=
    hf.holds.of_roster
  cases e with
  | localJoin sessionId callsign channel =>
    rcases hadm : h.admits channel (Callsigns.normalize callsign) with _ | _
    · exact hquiet (congrArg roster (localJoin_of_not_admits now sessionId hadm).1)
    · rw [Hub.step, advance, localJoin_of_admits now sessionId hadm]
      rw [admits, Bool.and_eq_true] at hadm
      exact hf.holds.storeSession
        (entry_localUser hf (Callsigns.normalize_normalize callsign) hadm.1 rfl)
  | localSwitchChannel sessionId channel =>
    rcases hs : h.sessions.find? sessionId with _ | s
    · exact hquiet (by simp only [Hub.step, advance, localSwitchChannel, hs, ignore])
    · obtain rfl : s.id = sessionId := Table.key_of_find? hs
      obtain ⟨hname, -, -, haway, -⟩ := hf.holds.sessions s hs
      rcases hall : h.allows channel s with _ | _
      · exact hquiet (congrArg roster (localSwitchChannel_of_not_allows now hs hall).1)
      · rw [Hub.step, advance, localSwitchChannel_of_allows now hs hall]
        rw [allows, Bool.and_eq_true, Bool.and_eq_true] at hall
        exact hf.holds.storeSession (entry_localUser hf hname hall.1.1 haway)
  | localSetPersonal sessionId personal =>
    rcases hs : h.sessions.find? sessionId with _ | s
    · exact hquiet (by simp only [Hub.step, advance, localSetPersonal, hs, ignore])
    · obtain rfl : s.id = sessionId := Table.key_of_find? hs
      obtain ⟨hname, -, hchannel, haway, -⟩ := hf.holds.sessions s hs
      have hstored : (h.storeSession (personalSession s personal)).Holds (Entry h.hostName) :=
        hf.holds.storeSession (entry_localUser hf hname hchannel haway)
      rcases hkeep : h.keepsProfile s.callsign with _ | _
      · rw [Hub.step, advance, localSetPersonal_of_not_keepsProfile now personal hs hkeep]
        exact hstored
      · obtain ⟨store, hset⟩ := localSetPersonal_of_keepsProfile now personal hs hkeep
        rw [Hub.step, advance, hset]
        exact hstored.of_roster rfl
  | localSetAway sessionId away =>
    simp only [Hub.step, advance, localSetAway]
    rcases hs : h.sessions.find? sessionId with _ | s
    · exact hf.holds
    · obtain ⟨hname, -, hchannel, -, -⟩ := hf.holds.sessions s (attached_of_find? hs)
      exact hf.holds.storeSession (s := { s with away := trim away })
        (entry_localUser hf hname hchannel (trim_trim away))
  | localLeave sessionId reason =>
    rcases hs : h.sessions.find? sessionId with _ | s
    · exact hquiet (by simp only [Hub.step, advance, localLeave, hs, ignore])
    · obtain rfl : s.id = sessionId := Table.key_of_find? hs
      rw [Hub.step, advance, localLeave_of_find? now reason hs]
      exact hf.holds.dropSession s
  | localSetOperator sessionId channel grant =>
    simp only [Hub.step, advance, localSetOperator]
    split
    · exact hf.holds
    · exact hf.holds.grantOperator Entry.flag _ _ _
  | hostOper user host channel grant =>
    have hgrant := hf.holds.grantOperator Entry.flag (Callsigns.normalize user) channel grant
    simp only [Hub.step, advance, hostOper]
    split
    · exact hf.holds
    · split
      · exact hgrant
      · rename_i u hu
        exact hgrant.put (Entry.flag u _ (hgrant.users _ u hu))
  | localInvite sessionId toUser channel =>
    simp only [Hub.step, advance, localInvite]
    split
    · exact hf.holds
    · split
      · exact hf.holds
      · exact hf.holds.recordInvite _ _
  | hostInvite source user channel =>
    simp only [Hub.step, advance, hostInvite]
    split
    · exact hf.holds
    · exact hf.holds.recordInvite _ _
  | hostUser user host timestamp fromChannel toChannel personal observer =>
    rw [Hub.step, advance]
    rcases hlists : h.lists user host toChannel with _ | _
    · rcases hsigns : h.signsOff user host toChannel with _ | _
      · rw [hostUser_of_neither _ _ _ _ hlists hsigns]
        exact hf.holds
      · rw [hostUser_of_signsOff _ _ _ _ hsigns]
        split
        · exact hf.holds.remove _
        · exact hf.holds
    · rw [hostUser_of_lists _ _ _ _ hlists]
      exact hf.holds.put (entry_hostEntry hf hlists timestamp personal observer)
  | hostPersonal user host text =>
    simp only [Hub.step, advance, hostPersonal]
    split
    · exact hf.holds
    · rename_i u hu
      obtain ⟨hname, hhost, hchannel, haway, hvalid⟩ := hf.holds.users _ u hu
      exact hf.holds.put ⟨hname, hhost, hchannel, haway, hvalid⟩
  | hostAway user host timestamp text =>
    simp only [Hub.step, advance, hostAway]
    split
    · exact hf.holds
    · rename_i u hu
      obtain ⟨hname, hhost, hchannel, -, hvalid⟩ := hf.holds.users _ u hu
      exact hf.holds.put ⟨hname, hhost, hchannel, trim_trim text, hvalid⟩
  | _ =>
    refine hquiet ?_
    simp only [Hub.step, advance, localSay, localPrivateMessage, localSetTopic, localSetMode,
      hostChannelMessage, hostPrivateMessage, hostTopic, hostMode]
    repeat' split
    all_goals rfl

/-! ### The channels of a run -/

/-- **The channels are as they are charted**: a topic has a time, and there are modes only where
they can be set. -/
structure Charted (h : Hub) : Prop where
  dated : ∀ c, (h.channelState c).topic ≠ [] → (h.channelState c).topicSetAt.isSome = true
  moded : ∀ c, ∀ flag ∈ h.modesOf c, ChannelNumber.isValid c = true ∧
    ChannelModes.Takes (c = ChannelNumber.random) flag

theorem modesOf_eq (c : Int32) : h.modesOf c = (h.channelState c).modes := by
  rw [modesOf, channelState]
  rcases h.channels.get? c with _ | state
  · rfl
  · rfl

theorem channelState_of_channels {h' : Hub} (hchannels : h'.channels = h.channels) (c : Int32) :
    h'.channelState c = h.channelState c := by
  rw [channelState, hchannels, channelState]

theorem channelState_applyTopic (channel : Int32) (topic setBy : Text) (setAt : DateTimeOffset)
    (c : Int32) :
    (h.applyTopic channel topic setBy setAt).channelState c =
      if c = channel then { h.channelState c with
        topic := topic, topicSetBy := setBy, topicSetAt := some setAt }
      else h.channelState c := by
  simp only [channelState, applyTopic, Table.Dict.get?_set]
  by_cases hc : c = channel
  · rw [if_pos hc, if_pos hc, hc]
    rfl
  · rw [if_neg hc, if_neg hc]

theorem channelState_setModes (channel : Int32) (modes : ChannelMode) (c : Int32) :
    (h.setModes channel modes).channelState c =
      if c = channel then { h.channelState c with modes := modes } else h.channelState c := by
  simp only [channelState, setModes, Table.Dict.get?_set]
  by_cases hc : c = channel
  · rw [if_pos hc, if_pos hc, hc]
    rfl
  · rw [if_neg hc, if_neg hc]

theorem Charted.of_channels {h' : Hub} (hc : h.Charted) (hchannels : h'.channels = h.channels) :
    h'.Charted := by
  have hstate := channelState_of_channels hchannels
  refine ⟨fun c => ?_, fun c => ?_⟩
  · rw [hstate c]
    exact hc.dated c
  · rw [modesOf_eq, hstate c, ← modesOf_eq]
    exact hc.moded c

/-- A hub that reads the topics of a store has a time with each, and no modes. -/
theorem Charted.of_new {hostName : Text} {store : Option ConversStore}
    (hnew : new hostName store = .ok h) : h.Charted := by
  have hget := get?_channels_of_new hnew
  refine ⟨fun c htopic => ?_, fun c flag hflag => ?_⟩
  · rw [channelState, hget] at htopic ⊢
    generalize store.bind (·.topics.find? c) = row at htopic ⊢
    rcases row with _ | row
    · exact (htopic rfl).elim
    · rfl
  · rw [modesOf, hget] at hflag
    generalize store.bind (·.topics.find? c) = row at hflag
    rcases row with _ | row
    · exact absurd hflag (Finset.notMem_empty flag)
    · exact absurd hflag (Finset.notMem_empty flag)

theorem Charted.applyTopic (hc : h.Charted) (channel : Int32) (topic setBy : Text)
    (setAt : DateTimeOffset) : (h.applyTopic channel topic setBy setAt).Charted := by
  refine ⟨fun c => ?_, fun c => ?_⟩
  · rw [channelState_applyTopic]
    split
    · exact fun _ => rfl
    · exact hc.dated c
  · have hmodes : (h.applyTopic channel topic setBy setAt).modesOf c = h.modesOf c := by
      rw [modesOf_eq, channelState_applyTopic, modesOf_eq]
      split
      · rfl
      · rfl
    rw [hmodes]
    exact hc.moded c

theorem Charted.setModes (hc : h.Charted) {channel : Int32}
    (hvalid : ChannelNumber.isValid channel = true) (options : Text) :
    (h.setModes channel (ChannelModes.apply (h.modesOf channel) options
      (channel = ChannelNumber.random))).Charted := by
  refine ⟨fun c => ?_, fun c flag hflag => ?_⟩
  · rw [channelState_setModes]
    split
    · exact hc.dated c
    · exact hc.dated c
  · rw [modesOf_setModes] at hflag
    split at hflag
    · rename_i heq
      subst heq
      refine ⟨hvalid, ?_⟩
      by_contra htakes
      rw [ChannelModes.apply, ChannelModes.mem_applyLoop, if_neg htakes] at hflag
      exact htakes (hc.moded c flag (of_decide_eq_true hflag)).2
    · exact hc.moded c flag hflag

/-- **One step charts what it sets.** What is shown of a channel to a host that comes so makes the
same channel there. -/
theorem Charted.step (hc : h.Charted) (now : DateTimeOffset) (e : ConversEvent) :
    (step h (now, e)).Charted := by
  cases e with
  | localSetTopic sessionId topic =>
    simp only [Hub.step, advance, localSetTopic]
    repeat' split
    all_goals first | exact hc | exact hc.applyTopic _ _ _ _
  | hostTopic user host timestamp channel text =>
    simp only [Hub.step, advance, hostTopic]
    repeat' split
    all_goals first | exact hc | exact hc.applyTopic _ _ _ _
  | localSetMode sessionId channel options =>
    simp only [Hub.step, advance, localSetMode]
    split
    · exact hc
    · split
      · exact hc
      · rename_i hvalid
        repeat' split
        all_goals first | exact hc | exact hc.setModes (by simpa using hvalid) options
  | hostMode channel options =>
    simp only [Hub.step, advance, hostMode]
    split
    · exact hc
    · rename_i hvalid
      split
      · exact hc
      · exact hc.setModes (by simpa using hvalid) options
  | _ => exact hc.of_channels (channels_step h now rfl)

end Hub

end Convers
