import Convers.Core.Topics

/-!
# What a step does to the roster

The roster of a hub is everything but its channels and its store: the sessions, the
users, the operators and the invitations. Most events leave it alone, and each of the
others changes it in one way. `Convers.Hub.rosterStep` says so once, with the event and
what it found; an invariant about operators or invitations is then a case analysis on
`Convers.Hub.RosterStep`, and no handler is unfolded again.
-/

namespace Convers

namespace Hub

/-- The roster: the hub without its channels and its store. -/
def roster (h : Hub) : Hub := { h with channels := Table.empty, store := none }

section Roster

variable {h h' : Hub} (hroster : h'.roster = h.roster)

include hroster

theorem hostName_of_roster : h'.hostName = h.hostName := (congrArg Hub.hostName hroster :)

theorem sessions_of_roster : h'.sessions = h.sessions := (congrArg Hub.sessions hroster :)

theorem users_of_roster : h'.users = h.users := (congrArg Hub.users hroster :)

theorem invitesFor_of_roster (call : Text) : h'.invitesFor call = h.invitesFor call :=
  (congrArg (Hub.invitesFor · call) hroster :)

theorem opOn_of_roster (call : Text) (channel : Int32) :
    h'.opOn call channel = h.opOn call channel :=
  (congrArg (Hub.opOn · call channel) hroster :)

end Roster

/-- An entry of the table is another host's. -/
def Remote (h : Hub) (k : Text × Text) : Prop := k.2 ≠ h.hostName

/-- The session with another personal text or away text. -/
def Retold (s s' : LocalSession) : Prop :=
  ∃ personal away, s' = { s with personal := personal, away := away }

/-- Whether a user announced by another host gets an entry. -/
def lists (h : Hub) (user host : Text) (toChannel : Int32) : Bool :=
  Callsigns.isValidName (Callsigns.normalize user) &&
    Callsigns.isValidName (Callsigns.normalize host) &&
      !Callsigns.equal (Callsigns.normalize host) h.hostName && ChannelNumber.isValid toChannel

/-- **What an event can do to the roster.** -/
inductive RosterStep (now : DateTimeOffset) (h h' : Hub) : ConversEvent → Prop
  /-- Nothing. -/
  | quiet {e : ConversEvent} (hroster : h'.roster = h.roster) : RosterStep now h h' e
  /-- A session joins. -/
  | joined {sessionId callsign : Text} {channel : Int32}
      (hadm : h.admits channel (Callsigns.normalize callsign) = true)
      (hroster : h'.roster =
        (h.storeSession (joinedSession now h sessionId callsign channel)).roster) :
      RosterStep now h h' (.localJoin sessionId callsign channel)
  /-- A session switches its channel. -/
  | switched {s : LocalSession} {channel : Int32} (hs : h.Attached s)
      (hall : h.allows channel s = true)
      (hroster : h'.roster = (h.storeSession (switchedSession now h s channel)).roster) :
      RosterStep now h h' (.localSwitchChannel s.id channel)
  /-- A session changes what it says of itself. -/
  | retold {e : ConversEvent} (s s' : LocalSession) (hs : h.Attached s) (hretold : Retold s s')
      (hroster : h'.roster = (h.storeSession s').roster) : RosterStep now h h' e
  /-- A session leaves. -/
  | left {s : LocalSession} {reason : Text} (hs : h.Attached s)
      (hroster : h'.roster = (h.dropSession s).roster) :
      RosterStep now h h' (.localLeave s.id reason)
  /-- A session is made an operator, or is one no more. -/
  | authenticated {s : LocalSession} {channel : Int32} {grant : Bool} (hs : h.Attached s)
      (hroster : h'.roster = (h.grantOperator s.callsign channel grant).roster) :
      RosterStep now h h' (.localSetOperator s.id channel grant)
  /-- A session invites a user. -/
  | invited {s : LocalSession} {toUser : Text} {channel : Int32} (hs : h.Attached s)
      (hroster : h'.roster = (h.recordInvite (Callsigns.normalize toUser) channel).roster) :
      RosterStep now h h' (.localInvite s.id toUser channel)
  /-- Another host invites a user. -/
  | hostInvited {source user : Text} {channel : Int32}
      (hvalid : ChannelNumber.isValid channel = true)
      (hroster : h'.roster = (h.recordInvite (Callsigns.normalize user) channel).roster) :
      RosterStep now h h' (.hostInvite source user channel)
  /-- A user of another host is on a channel. -/
  | appeared {user host : Text} {timestamp : DateTimeOffset} {fromChannel toChannel : Int32}
      {personal : Text} {observer : Bool} (entry : NetworkUser)
      (hlists : h.lists user host toChannel = true)
      (hkey : entry.key = (Callsigns.normalize user, Callsigns.normalize host))
      (hremote : h.Remote entry.key) (hchannel : entry.channel = toChannel)
      (hflag : entry.isOperator = false)
      (hroster : h'.roster = { h with users := h.users.put entry }.roster) :
      RosterStep now h h' (.hostUser user host timestamp fromChannel toChannel personal observer)
  /-- A user of another host is gone. -/
  | vanished {e : ConversEvent} (k : Text × Text) (hremote : h.Remote k)
      (hroster : h'.roster = { h with users := h.users.remove k }.roster) : RosterStep now h h' e
  /-- An entry has another personal text or away text. -/
  | described {e : ConversEvent} (u u' : NetworkUser) (hu : h.users.find? u.key = some u)
      (hkey : u'.key = u.key) (hchannel : u'.channel = u.channel)
      (hflag : u'.isOperator = u.isOperator)
      (hroster : h'.roster = { h with users := h.users.put u' }.roster) : RosterStep now h h' e
  /-- Another host makes a callsign an operator, or makes it one no more. -/
  | granted {user host : Text} {channel : Int32} {grant : Bool}
      (hvalid : Callsigns.isValidName (Callsigns.normalize user) = true)
      (hnone : (h.grantOperator (Callsigns.normalize user) channel grant).users.find?
        (Callsigns.normalize user, Callsigns.normalize host) = none)
      (hroster : h'.roster = (h.grantOperator (Callsigns.normalize user) channel grant).roster) :
      RosterStep now h h' (.hostOper user host channel grant)
  /-- Another host makes a callsign an operator, and names an entry to show it. -/
  | flagged {user host : Text} {channel : Int32} {grant : Bool} (u : NetworkUser)
      (hvalid : Callsigns.isValidName (Callsigns.normalize user) = true)
      (hu : (h.grantOperator (Callsigns.normalize user) channel grant).users.find?
        (Callsigns.normalize user, Callsigns.normalize host) = some u)
      (hroster : h'.roster =
        { h.grantOperator (Callsigns.normalize user) channel grant with
          users := (h.grantOperator (Callsigns.normalize user) channel grant).users.put
            ((h.grantOperator (Callsigns.normalize user) channel grant).flagUser
              (Callsigns.normalize user) u) }.roster) :
      RosterStep now h h' (.hostOper user host channel grant)

/-- An event of a session that is not attached does nothing. -/
theorem quiet_of_find?_eq_none {h : Hub} {e : ConversEvent} {sessionId : Text}
    (he : e.sessionId? = some sessionId)
    (hnot : ∀ callsign channel, e ≠ .localJoin sessionId callsign channel)
    (hs : h.sessions.find? sessionId = none) (now : DateTimeOffset) :
    RosterStep now h (step h (now, e)) e := by
  refine .quiet (congrArg roster ?_)
  cases e with
  | localJoin id callsign channel =>
    cases he
    exact absurd rfl (hnot callsign channel)
  | _ =>
    first
      | cases he; done
      | cases he
        simp only [step, advance, localSwitchChannel, localSay, localPrivateMessage,
          localSetPersonal, localSetAway, localSetTopic, localInvite, localSetMode,
          localSetOperator, localLeave, hs, ignore]

/-! ### One lemma for each handler that changes it -/

section Handlers

variable {h : Hub} {now : DateTimeOffset} {sessionId : Text}

theorem rosterStep_localJoin (callsign : Text) (channel : Int32) :
    RosterStep now h (h.localJoin now sessionId callsign channel).hub
      (.localJoin sessionId callsign channel) := by
  rcases hadm : h.admits channel (Callsigns.normalize callsign) with _ | _
  · exact .quiet (congrArg roster (by rw [(localJoin_of_not_admits now sessionId hadm).1]))
  · exact .joined hadm (congrArg roster (by rw [localJoin_of_admits now sessionId hadm]))

theorem rosterStep_localSwitchChannel (channel : Int32) :
    RosterStep now h (h.localSwitchChannel now sessionId channel).hub
      (.localSwitchChannel sessionId channel) := by
  rcases hs : h.sessions.find? sessionId with _ | s
  · exact quiet_of_find?_eq_none (e := .localSwitchChannel sessionId channel) rfl (by simp) hs now
  · obtain rfl : s.id = sessionId := Table.key_of_find? hs
    rcases hall : h.allows channel s with _ | _
    · exact .quiet (congrArg roster (by rw [(localSwitchChannel_of_not_allows now hs hall).1]))
    · exact .switched hs hall
        (congrArg roster (by rw [localSwitchChannel_of_allows now hs hall]))

theorem rosterStep_localSetPersonal (personal : Text) :
    RosterStep now h (h.localSetPersonal now sessionId personal).hub
      (.localSetPersonal sessionId personal) := by
  rcases hs : h.sessions.find? sessionId with _ | s
  · exact quiet_of_find?_eq_none (e := .localSetPersonal sessionId personal) rfl (by simp) hs now
  · obtain rfl : s.id = sessionId := Table.key_of_find? hs
    refine .retold s (personalSession s personal) hs ⟨_, s.away, rfl⟩ ?_
    rcases hkeep : h.keepsProfile s.callsign with _ | _
    · rw [localSetPersonal_of_not_keepsProfile now personal hs hkeep]
    · obtain ⟨store, hset⟩ := localSetPersonal_of_keepsProfile now personal hs hkeep
      rw [hset]
      rfl

theorem rosterStep_localSetAway (away : Text) :
    RosterStep now h (h.localSetAway now sessionId away).hub (.localSetAway sessionId away) := by
  rcases hs : h.sessions.find? sessionId with _ | s
  · exact quiet_of_find?_eq_none (e := .localSetAway sessionId away) rfl (by simp) hs now
  · refine .retold s { s with away := trim away } (attached_of_find? hs) ⟨s.personal, _, rfl⟩ ?_
    simp only [localSetAway, hs]
    rfl

theorem rosterStep_localLeave (reason : Text) :
    RosterStep now h (h.localLeave now sessionId reason).hub (.localLeave sessionId reason) := by
  rcases hs : h.sessions.find? sessionId with _ | s
  · exact quiet_of_find?_eq_none (e := .localLeave sessionId reason) rfl (by simp) hs now
  · obtain rfl : s.id = sessionId := Table.key_of_find? hs
    exact .left hs (by rw [localLeave_of_find? now reason hs])

theorem rosterStep_localSetOperator (channel : Int32) (grant : Bool) :
    RosterStep now h (h.localSetOperator sessionId channel grant).hub
      (.localSetOperator sessionId channel grant) := by
  rcases hs : h.sessions.find? sessionId with _ | s
  · exact quiet_of_find?_eq_none (e := .localSetOperator sessionId channel grant) rfl (by simp) hs
      now
  · obtain rfl : s.id = sessionId := Table.key_of_find? hs
    refine .authenticated hs ?_
    simp only [localSetOperator, hs]
    rfl

theorem rosterStep_localInvite (toUser : Text) (channel : Int32) :
    RosterStep now h (h.localInvite sessionId toUser channel).hub
      (.localInvite sessionId toUser channel) := by
  rcases hs : h.sessions.find? sessionId with _ | s
  · exact quiet_of_find?_eq_none (e := .localInvite sessionId toUser channel) rfl (by simp) hs now
  · obtain rfl : s.id = sessionId := Table.key_of_find? hs
    simp only [localInvite, hs]
    split
    · exact .quiet rfl
    · exact .invited hs rfl

theorem rosterStep_hostInvite (source user : Text) (channel : Int32) :
    RosterStep now h (h.hostInvite source user channel).hub (.hostInvite source user channel) := by
  simp only [hostInvite]
  split
  · exact .quiet rfl
  · rename_i hvalid
    exact .hostInvited (by simpa using hvalid) rfl

theorem rosterStep_hostUser (user host : Text) (timestamp : DateTimeOffset)
    (fromChannel toChannel : Int32) (personal : Text) (observer : Bool) :
    RosterStep now h
      (h.hostUser user host timestamp fromChannel toChannel personal observer).hub
      (.hostUser user host timestamp fromChannel toChannel personal observer) := by
  simp only [hostUser]
  split
  · exact .quiet rfl
  rename_i hnames
  split
  · exact .quiet rfl
  rename_i hguard
  -- the guard: what is written is not under our host name
  have hremote : ∀ name : Text, h.Remote (name, Callsigns.normalize host) := by
    intro name heq
    refine hguard ?_
    rw [← (heq : Callsigns.normalize host = h.hostName)]
    exact decide_eq_true rfl
  split
  · split
    · exact .quiet rfl
    · exact .vanished _ (hremote _) rfl
  split
  · exact .quiet rfl
  · rename_i hvalid
    have hlists : h.lists user host toChannel = true := by
      simp only [Bool.or_eq_true, Bool.not_eq_true', not_or, Bool.not_eq_false] at hnames hvalid
      simp [lists, hnames, hguard, hvalid]
    exact .appeared _ hlists rfl (hremote _) rfl rfl rfl

theorem rosterStep_hostPersonal (user host text : Text) :
    RosterStep now h (h.hostPersonal user host text).hub (.hostPersonal user host text) := by
  simp only [hostPersonal]
  split
  · exact .quiet rfl
  · rename_i existing hfound
    have hkey : existing.key = _ := Table.key_of_find? hfound
    rw [← hkey] at hfound
    exact .described existing { existing with personal := resolvePersonal text } hfound rfl rfl rfl
      rfl

theorem rosterStep_hostAway (user host : Text) (timestamp : DateTimeOffset) (text : Text) :
    RosterStep now h (h.hostAway user host text).hub (.hostAway user host timestamp text) := by
  simp only [hostAway]
  split
  · exact .quiet rfl
  · rename_i existing hfound
    have hkey : existing.key = _ := Table.key_of_find? hfound
    rw [← hkey] at hfound
    exact .described existing { existing with away := trim text } hfound rfl rfl rfl rfl

theorem rosterStep_hostOper (user host : Text) (channel : Int32) (grant : Bool) :
    RosterStep now h (h.hostOper user host channel grant).hub
      (.hostOper user host channel grant) := by
  simp only [hostOper]
  split
  · exact .quiet rfl
  · rename_i hvalid
    rw [Bool.not_eq_true', Bool.not_eq_false] at hvalid
    split
    · rename_i hnone
      exact .granted hvalid hnone rfl
    · rename_i u hu
      exact .flagged u hvalid hu rfl

end Handlers

/-- **The inversion of a step**, for the roster: an invariant about operators or invitations
is a case analysis on it. -/
theorem rosterStep (h : Hub) (now : DateTimeOffset) (e : ConversEvent) :
    RosterStep now h (step h (now, e)) e := by
  cases e with
  | localJoin sessionId callsign channel => exact rosterStep_localJoin callsign channel
  | localSwitchChannel sessionId channel => exact rosterStep_localSwitchChannel channel
  | localSetPersonal sessionId personal => exact rosterStep_localSetPersonal personal
  | localSetAway sessionId away => exact rosterStep_localSetAway away
  | localLeave sessionId reason => exact rosterStep_localLeave reason
  | localSetOperator sessionId channel grant => exact rosterStep_localSetOperator channel grant
  | localInvite sessionId toUser channel => exact rosterStep_localInvite toUser channel
  | hostInvite source user channel => exact rosterStep_hostInvite source user channel
  | hostUser user host timestamp fromChannel toChannel personal observer =>
    exact rosterStep_hostUser user host timestamp fromChannel toChannel personal observer
  | hostPersonal user host text => exact rosterStep_hostPersonal user host text
  | hostAway user host timestamp text => exact rosterStep_hostAway user host timestamp text
  | hostOper user host channel grant => exact rosterStep_hostOper user host channel grant
  | localSay | localPrivateMessage | localSetTopic | localSetMode =>
    simp only [step, advance, localSay, localPrivateMessage, localSetTopic, localSetMode]
    repeat' split
    all_goals exact .quiet rfl
  | hostTopic | hostMode | hostChannelMessage | hostPrivateMessage =>
    simp only [step, advance, hostTopic, hostMode, hostChannelMessage, hostPrivateMessage]
    repeat' split
    all_goals exact .quiet rfl
  | hostPing | hostPong | hostLoop | hostUnknown => exact .quiet rfl

/-! ### Grants -/

/-- Who is an operator does not depend on how a callsign is spelled. -/
theorem opOn_congr (h : Hub) {call call' : Text}
    (heq : Callsigns.normalize call = Callsigns.normalize call') (channel : Int32) :
    h.opOn call channel = h.opOn call' channel := by
  simp only [opOn, isGlobalOperator, isChannelOperator, heq]

/-- A grant to one callsign is none to another. -/
theorem opOn_applyOperator_of_ne (h : Hub) {call call' : Text}
    (hne : Callsigns.normalize call' ≠ Callsigns.normalize call) (channel : Int32) (grant : Bool)
    (c : Int32) : (h.applyOperator call channel grant).opOn call' c = h.opOn call' c := by
  rw [applyOperator]
  split
  · rcases grant with _ | _
    · simp [opOn, isGlobalOperator, isChannelOperator, hne]
    · simp [opOn, isGlobalOperator, isChannelOperator, hne]
  · rcases grant with _ | _
    · rw [if_neg Bool.false_ne_true]
      split
      · rename_i ops hops
        by_cases hc : c = channel
        · subst hc
          simp [opOn, isGlobalOperator, isChannelOperator, Table.Dict.get?_set, hops, hne]
        · simp [opOn, isGlobalOperator, isChannelOperator, Table.Dict.get?_set, hc]
      · rfl
    · rw [if_pos rfl]
      by_cases hc : c = channel
      · subst hc
        rcases hops : h.channelOps.get? c with _ | ops
        · simp [opOn, isGlobalOperator, isChannelOperator, Table.Dict.get?_set, hops, hne]
        · simp [opOn, isGlobalOperator, isChannelOperator, Table.Dict.get?_set, hops, hne]
      · simp [opOn, isGlobalOperator, isChannelOperator, Table.Dict.get?_set, hc]

theorem opOn_grantOperator (h : Hub) (call : Text) (channel : Int32) (grant : Bool) (call' : Text)
    (c : Int32) :
    (h.grantOperator call channel grant).opOn call' c =
      (h.applyOperator call channel grant).opOn call' c := opOn_refresh _ _ _ _

/-- **A session after a grant**: who and where it was, with the flag the grants say if the grant is
to its callsign. Nobody is attached or detached by a grant. -/
theorem Attached.of_grantOperator {h : Hub} {call : Text} {channel : Int32} {grant : Bool}
    {s : LocalSession} (hs : (h.grantOperator call channel grant).Attached s) :
    ∃ t, h.Attached t ∧ s = { t with
      isOperator := if Callsigns.equal t.callsign call then
        (h.grantOperator call channel grant).opOn t.callsign t.channel else t.isOperator } := by
  obtain ⟨t, ht, rfl⟩ := attached_grantOperator.mp hs
  refine ⟨t, ht, ?_⟩
  have hequal : Callsigns.equal t.callsign (Callsigns.normalize call) =
      Callsigns.equal t.callsign call := by
    rw [Callsigns.equal, Callsigns.equal, Callsigns.normalize_normalize]
  by_cases hcall : Callsigns.equal t.callsign call = true
  · have hnorm :
        Callsigns.normalize t.callsign = Callsigns.normalize (Callsigns.normalize call) := by
      rw [Callsigns.normalize_normalize]
      exact of_decide_eq_true hcall
    have hop := opOn_congr (h.applyOperator call channel grant) hnorm t.channel
    rw [if_pos hcall, opOn_grantOperator, hop]
    by_cases hstale : (h.applyOperator call channel grant).isStale (Callsigns.normalize call) t
    · rw [if_pos hstale]
      rfl
    · rw [if_neg hstale]
      rw [isStale, hequal, hcall, Bool.true_and, decide_eq_true_eq, not_not] at hstale
      rw [hstale]
  · rw [if_neg hcall, if_neg]
    rw [isStale, hequal]
    simp [hcall]

end Hub

end Convers
