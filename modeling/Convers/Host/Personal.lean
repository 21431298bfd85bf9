import Convers.Core.Entries
import Convers.Core.Invitations
import Convers.Host.HostLink

/-!
# The personal text of a local user

A personal text is trimmed and loses its brand (`Convers.Hub.makePersonalConsistent`),
and is sent behind a marker for the empty text, which the reader and the receiving hub
take off again. Two kinds of text do not come through: one that has a second brand
behind a blank is branded again, and the marker itself is read as no text.

| the text, trimmed | shown and sent here | held by a peer |
|---|---|---|
| tildes, blanks, and something else | the something else | the same |
| tildes, blanks, and a tilde again | a branded text | the same |
| the marker, alone or behind tildes | the marker | nothing |

A hub shows no brand in any run that sets no text of the second kind and finds none in
its store (`Convers.Hub.not_presentsBrand_of_new`), and a peer holds what the session shows
but for the third kind (`Convers.Hub.heldAsShown_iff`).
-/

namespace Convers

namespace Hub

/-! ### The texts -/

/-- A text shows the brand. -/
def Branded (t : Text) : Prop := t.head? = some '~'

/-- A second brand, behind the first and a blank. -/
def Rebranded (t : Text) : Prop :=
  ∃ tildes blanks rest : Text, tildes ≠ [] ∧ (∀ c ∈ tildes, c = '~') ∧
    blanks ≠ [] ∧ (∀ c ∈ blanks, isWhiteSpace c = true) ∧ trim t = tildes ++ blanks ++ '~' :: rest

/-- The marker of the empty text, alone or behind the brand. -/
def LooksEmpty (t : Text) : Prop :=
  ∃ tildes blanks : Text, (∀ c ∈ tildes, c = '~') ∧ (tildes = [] → blanks = []) ∧
    (∀ c ∈ blanks, isWhiteSpace c = true) ∧ trim t = tildes ++ blanks ++ ['@']

instance (t : Text) : Decidable (Branded t) := inferInstanceAs (Decidable (_ = _))

theorem isWhiteSpace_tilde : isWhiteSpace '~' = false := by decide

theorem isWhiteSpace_marker : isWhiteSpace '@' = false := by decide

/-- **The brand and the blanks behind it are taken off**, whether there is one or not. It takes off
one brand, so one that comes behind it is left. -/
theorem makePersonalConsistent_eq (t : Text) :
    makePersonalConsistent t = ((trim t).dropWhile (· = '~')).dropWhile isWhiteSpace := by
  rw [makePersonalConsistent]
  split
  · rfl
  · rename_i hhead
    have hkeep : (trim t).dropWhile (· = '~') = trim t := by
      rcases h : trim t with _ | ⟨c, s⟩
      · rfl
      · rw [List.dropWhile_cons_of_neg]
        rintro hc
        rw [h, List.head?_cons, Option.some.injEq] at hhead
        exact hhead (of_decide_eq_true hc)
    rw [hkeep, dropWhile_trim]

/-- What is left of a text starts with no blank and, right behind tildes, with no tilde. -/
theorem head?_dropWhile {p : Char → Bool} {t : Text} {c : Char}
    (h : (t.dropWhile p).head? = some c) :
    p c = false := by
  have hnot := List.head?_dropWhile_not p t
  rw [h] at hnot
  exact hnot

/-- **A trimmed text is its tildes, the blanks behind them and what is left.** The two kinds of text
that go wrong are told apart by the parts. -/
theorem trim_eq_parts (t : Text) :
    ∃ tildes blanks : Text, (∀ c ∈ tildes, c = '~') ∧ (tildes = [] → blanks = []) ∧
      (∀ c ∈ blanks, isWhiteSpace c = true) ∧ (blanks = [] → ¬Branded (makePersonalConsistent t)) ∧
      trim t = tildes ++ blanks ++ makePersonalConsistent t := by
  have hsplit := List.takeWhile_append_dropWhile (p := fun c => decide (c = '~')) (l := trim t)
  have hsplit' := List.takeWhile_append_dropWhile (p := isWhiteSpace)
    (l := (trim t).dropWhile (· = '~'))
  refine ⟨(trim t).takeWhile (· = '~'), ((trim t).dropWhile (· = '~')).takeWhile isWhiteSpace,
    fun c hc => ?_, fun hnone => ?_, fun c hc => List.mem_takeWhile_imp hc, fun hnone => ?_, ?_⟩
  · simpa using List.mem_takeWhile_imp hc
  · -- without tildes, what is left is the trimmed text
    rw [hnone, List.nil_append] at hsplit
    rw [hsplit, dropWhile_trim] at hsplit'
    rw [hsplit]
    exact List.append_left_eq_self.mp hsplit'
  · intro hbranded
    rw [hnone, List.nil_append] at hsplit'
    rw [Branded, makePersonalConsistent_eq, hsplit'] at hbranded
    simpa using head?_dropWhile hbranded
  · rw [makePersonalConsistent_eq, List.append_assoc, hsplit', hsplit]

/-- Tildes and blanks before a text are taken off. -/
theorem makePersonalConsistent_of_parts {t tildes blanks s : Text} (htildes : ∀ c ∈ tildes, c = '~')
    (hfirst : tildes = [] → blanks = []) (hblanks : ∀ c ∈ blanks, isWhiteSpace c = true)
    (hbrand : blanks = [] → ¬Branded s) (hblank : ∀ c ∈ s.head?, isWhiteSpace c = false)
    (ht : trim t = tildes ++ blanks ++ s) : makePersonalConsistent t = s := by
  have hs : s.dropWhile isWhiteSpace = s := by
    rcases s with _ | ⟨c, s⟩
    · rfl
    · exact List.dropWhile_cons_of_neg (by simp [hblank c rfl])
  have hstop : (blanks ++ s).dropWhile (fun c => decide (c = '~')) = blanks ++ s := by
    rcases blanks with _ | ⟨c, blanks⟩
    · rcases s with _ | ⟨c, s⟩
      · rfl
      · refine List.dropWhile_cons_of_neg fun hc => hbrand rfl ?_
        rw [Branded, List.head?_cons, of_decide_eq_true hc]
    · refine List.dropWhile_cons_of_neg fun hc => ?_
      have hspace := hblanks c (by simp)
      rw [of_decide_eq_true hc, isWhiteSpace_tilde] at hspace
      cases hspace
  rw [makePersonalConsistent_eq, ht, List.append_assoc,
    List.dropWhile_append_of_pos (fun c hc => decide_eq_true (htildes c hc)), hstop,
    List.dropWhile_append_of_pos hblanks, hs]

/-- **A text is shown with a brand when it has a second one.** It is the first kind of text that
goes wrong. -/
theorem branded_makePersonalConsistent_iff (t : Text) :
    Branded (makePersonalConsistent t) ↔ Rebranded t := by
  constructor
  · intro hbranded
    obtain ⟨tildes, blanks, htildes, hfirst, hblanks, hbrand, ht⟩ := trim_eq_parts t
    obtain ⟨rest, hrest⟩ : ∃ rest, makePersonalConsistent t = '~' :: rest := by
      rcases h : makePersonalConsistent t with _ | ⟨c, rest⟩
      · rw [Branded, h] at hbranded
        cases hbranded
      · rw [Branded, h, List.head?_cons, Option.some.injEq] at hbranded
        exact ⟨rest, by rw [hbranded]⟩
    have hne : blanks ≠ [] := fun hnone => hbrand hnone hbranded
    rw [hrest] at ht
    exact ⟨tildes, blanks, rest, fun hnone => hne (hfirst hnone), htildes, hne, hblanks, ht⟩
  · rintro ⟨tildes, blanks, rest, hne, htildes, hne', hblanks, ht⟩
    rw [makePersonalConsistent_of_parts htildes (fun h => absurd h hne) hblanks
      (fun h => absurd h hne') (by simp [isWhiteSpace_tilde]) ht]
    rfl

/-- **A text is shown as the marker when it looks empty.** It is the second kind of text that goes
wrong. -/
theorem makePersonalConsistent_eq_marker_iff (t : Text) :
    makePersonalConsistent t = ['@'] ↔ LooksEmpty t := by
  constructor
  · intro hmarker
    obtain ⟨tildes, blanks, htildes, hfirst, hblanks, -, ht⟩ := trim_eq_parts t
    rw [hmarker] at ht
    exact ⟨tildes, blanks, htildes, hfirst, hblanks, ht⟩
  · rintro ⟨tildes, blanks, htildes, hfirst, hblanks, ht⟩
    exact makePersonalConsistent_of_parts htildes hfirst hblanks (fun _ => by decide)
      (by simp [isWhiteSpace_marker]) ht

/-- What is shown is trimmed. -/
theorem trim_makePersonalConsistent (t : Text) :
    trim (makePersonalConsistent t) = makePersonalConsistent t := by
  obtain ⟨tildes, blanks, -, -, -, -, ht⟩ := trim_eq_parts t
  have hstart : (makePersonalConsistent t).dropWhile isWhiteSpace = makePersonalConsistent t := by
    rw [makePersonalConsistent_eq, List.dropWhile_idempotent]
  rw [trim, hstart, List.rdropWhile_eq_self_iff]
  intro hne hblank
  -- the last character is the last one of the trimmed text
  have hend : (trim t).rdropWhile isWhiteSpace = trim t := List.rdropWhile_idempotent _ _
  have hne' : trim t ≠ [] := by
    rw [ht]
    exact List.append_ne_nil_of_right_ne_nil _ hne
  refine List.rdropWhile_eq_self_iff.mp hend hne' ?_
  simpa only [ht, List.getLast_append_of_ne_nil _ hne] using hblank

/-! ### No brand is shown -/

section Runs

variable {h : Hub}

/-- The sessions show no brand. -/
def Unbranded (h : Hub) : Prop := ∀ s, h.Attached s → ¬Branded s.personal

/-- An event brings no brand: a join finds none in the store, and a text that a session sets has
no second one. -/
def BringsNoBrand (h : Hub) : ConversEvent → Prop
  | .localJoin _ callsign channel => h.admits channel (Callsigns.normalize callsign) = true →
    ∀ profile, h.store.bind (·.getProfile (Callsigns.normalize callsign)) = some profile →
      ¬Branded profile.personal
  | .localSetPersonal sessionId personal =>
    (h.sessions.find? sessionId).isSome = true → ¬Rebranded personal
  | _ => True

/-- A send presents a local user with the brand, by his personal text or on a channel. -/
def PresentsBrand : ConversAction → Prop
  | .sendPersonal _ _ text => Branded text
  | .sendUser _ _ _ _ toChannel personal => toChannel ≠ -1 ∧ Branded personal
  | _ => False

instance (a : ConversAction) : Decidable (PresentsBrand a) := by
  cases a <;> simp only [PresentsBrand] <;> infer_instance

theorem Unbranded.of_sessions (hu : h.Unbranded) {h' : Hub} (hsessions : h'.sessions = h.sessions) :
    h'.Unbranded := by
  intro s hs
  rw [Attached, hsessions] at hs
  exact hu s hs

theorem Unbranded.storeSession (hu : h.Unbranded) {s : LocalSession} (hs : ¬Branded s.personal) :
    (h.storeSession s).Unbranded := by
  intro t ht
  rw [Attached, find?_sessions_storeSession] at ht
  split at ht
  · cases ht
    exact hs
  · exact hu t ht

theorem Unbranded.grantOperator (hu : h.Unbranded) (call : Text) (channel : Int32) (grant : Bool) :
    (h.grantOperator call channel grant).Unbranded := by
  intro s hs
  obtain ⟨t, ht, rfl⟩ := hs.of_grantOperator
  exact hu t ht

theorem Unbranded.recordInvite (hu : h.Unbranded) (call : Text) (channel : Int32) :
    (h.recordInvite call channel).Unbranded := by
  intro s hs
  obtain ⟨t, ht, rfl⟩ := Attached.of_recordInvite hs
  exact hu t ht

/-- The text a join hydrates. -/
theorem not_branded_hydrated {callsign : Text} (hstore : ∀ profile,
    h.store.bind (·.getProfile (Callsigns.normalize callsign)) = some profile →
      ¬Branded profile.personal) :
    ¬Branded (((h.store.bind (·.getProfile (Callsigns.normalize callsign))).map
      UserProfile.personal).getD []) := by
  rcases hprofile : h.store.bind (·.getProfile (Callsigns.normalize callsign)) with _ | profile
  · decide
  · exact hstore profile hprofile

/-- **One step brings no brand to a session.** The texts a session has come from itself, or from the
store at its join. -/
theorem Unbranded.step (hu : h.Unbranded) (now : DateTimeOffset) (e : ConversEvent)
    (hbrings : h.BringsNoBrand e) : (step h (now, e)).Unbranded := by
  cases e with
  | localJoin sessionId callsign channel =>
    rcases hadm : h.admits channel (Callsigns.normalize callsign) with _ | _
    · rw [Hub.step, advance, (localJoin_of_not_admits now sessionId hadm).1]
      exact hu
    · rw [Hub.step, advance, localJoin_of_admits now sessionId hadm]
      -- a join reads the personal data of the store, where a brand may be
      exact hu.storeSession (not_branded_hydrated (hbrings hadm))
  | localSwitchChannel sessionId channel =>
    rcases hs : h.sessions.find? sessionId with _ | s
    · simp only [Hub.step, advance, localSwitchChannel, hs, ignore]
      exact hu
    · obtain rfl : s.id = sessionId := Table.key_of_find? hs
      rcases hall : h.allows channel s with _ | _
      · rw [Hub.step, advance, (localSwitchChannel_of_not_allows now hs hall).1]
        exact hu
      · rw [Hub.step, advance, localSwitchChannel_of_allows now hs hall]
        exact hu.storeSession (s := switchedSession now h s channel) (hu s hs)
  | localSetPersonal sessionId personal =>
    rcases hs : h.sessions.find? sessionId with _ | s
    · simp only [Hub.step, advance, localSetPersonal, hs, ignore]
      exact hu
    · obtain rfl : s.id = sessionId := Table.key_of_find? hs
      have hstored : (h.storeSession (personalSession s personal)).Unbranded := by
        -- one brand is stripped, so what is stored has one only if the text had two
        refine hu.storeSession ((branded_makePersonalConsistent_iff personal).not.mpr (hbrings ?_))
        rw [hs]
        rfl
      rcases hkeep : h.keepsProfile s.callsign with _ | _
      · rw [Hub.step, advance, localSetPersonal_of_not_keepsProfile now personal hs hkeep]
        exact hstored
      · obtain ⟨store, hset⟩ := localSetPersonal_of_keepsProfile now personal hs hkeep
        rw [Hub.step, advance, hset]
        exact hstored.of_sessions rfl
  | localSetAway sessionId away =>
    simp only [Hub.step, advance, localSetAway]
    rcases hs : h.sessions.find? sessionId with _ | s
    · exact hu
    · exact hu.storeSession (s := { s with away := trim away }) (hu s (attached_of_find? hs))
  | localLeave sessionId reason =>
    rcases hs : h.sessions.find? sessionId with _ | s
    · simp only [Hub.step, advance, localLeave, hs, ignore]
      exact hu
    · obtain rfl : s.id = sessionId := Table.key_of_find? hs
      rw [Hub.step, advance, localLeave_of_find? now reason hs]
      intro t ht
      rw [Attached, find?_sessions_dropSession] at ht
      split at ht
      · cases ht
      · exact hu t ht
  | localSetOperator sessionId channel grant =>
    simp only [Hub.step, advance, localSetOperator]
    split
    · exact hu
    · exact hu.grantOperator _ _ _
  | hostOper user host channel grant =>
    simp only [Hub.step, advance, hostOper]
    repeat' split
    all_goals first | exact hu | exact hu.grantOperator _ _ _
  | localInvite sessionId toUser channel =>
    simp only [Hub.step, advance, localInvite]
    repeat' split
    all_goals first | exact hu | exact hu.recordInvite _ _
  | hostInvite source user channel =>
    simp only [Hub.step, advance, hostInvite]
    split
    · exact hu
    · exact hu.recordInvite _ _
  | _ =>
    -- the others leave the sessions as they are
    refine hu.of_sessions ?_
    simp only [Hub.step, advance, localSay, localPrivateMessage, localSetTopic, localSetMode,
      hostUser, hostChannelMessage, hostPrivateMessage, hostPersonal, hostAway, hostTopic, hostMode]
    repeat' split
    all_goals rfl

/-- A step of sessions that show no brand presents none. -/
theorem Unbranded.not_presentsBrand (hu : h.Unbranded) (now : DateTimeOffset) (e : ConversEvent)
    (hbrings : h.BringsNoBrand e) : ∀ a ∈ (h.advance now e).actions, ¬PresentsBrand a := by
  intro a ha hbrand
  have hcontent : a.isContent = true := by
    cases a <;> first | rfl | exact hbrand.elim
  rcases hlocal : e.isLocal with _ | _
  · rcases h.advance_of_not_isLocal now hlocal a ha with hdeliver | ⟨-, rfl⟩ | ⟨reason, rfl⟩
    · rw [ConversAction.isDeliver_of_isContent hcontent] at hdeliver
      cases hdeliver
    · exact hbrand
    · exact hbrand
  · obtain ⟨hann, hsend⟩ := announcement_of_mem hlocal ha hcontent
    cases e with
    | localJoin sessionId callsign channel =>
      cases hsend
      exact not_branded_hydrated (hbrings hann) hbrand.2
    | localSwitchChannel sessionId channel =>
      simp only [announcement, Option.map_eq_some_iff] at hsend
      obtain ⟨s, hs, rfl⟩ := hsend
      exact hu s (attached_of_find? hs) hbrand.2
    | localSetPersonal sessionId personal =>
      simp only [announcement, Option.map_eq_some_iff] at hsend
      obtain ⟨s, hs, rfl⟩ := hsend
      refine hbrings ?_ ((branded_makePersonalConsistent_iff personal).mp hbrand)
      rw [hs]
      rfl
    | localLeave sessionId reason =>
      simp only [announcement, Option.map_eq_some_iff] at hsend
      obtain ⟨s, hs, rfl⟩ := hsend
      exact hbrand.1 rfl
    | localSetMode sessionId channel options =>
      cases hsend
      exact hbrand
    | localSay sessionId text | localPrivateMessage sessionId toUser text
    | localSetAway sessionId away | localSetTopic sessionId topic
    | localInvite sessionId toUser channel =>
      simp only [announcement, Option.map_eq_some_iff] at hsend
      obtain ⟨s, hs, rfl⟩ := hsend
      exact hbrand
    | _ => cases hsend

/-- **No brand is presented**, in any run that brings none. Every text that is sent or stored is
that of a session. -/
theorem not_presentsBrand_of_new {hostName : Text} {store : Option ConversStore} {start : Hub}
    (hnew : new hostName store = .ok start) (inputs : List Input)
    (hbrings : ∀ p ∈ Run.trace Hub.step start inputs, p.1.BringsNoBrand p.2.2) :
    ∀ p ∈ Run.trace Hub.step start inputs, ∀ a ∈ (p.1.advance p.2.1 p.2.2).actions,
      ¬PresentsBrand a := by
  have hstart : start.Unbranded := fun s hs => absurd hs (not_attached_of_new hnew s)
  obtain ⟨hall, -⟩ := Run.invariant hstart inputs fun p hp hu =>
    hu.step p.2.1 p.2.2 (hbrings p hp)
  exact fun p hp => (hall p hp).not_presentsBrand p.2.1 p.2.2 (hbrings p hp)

end Runs

/-! ### What a peer holds -/

section Peers

open HostCommand HostCommandCodec ConversTokenizer

variable {h peer : Hub}

/-- An action as a peer gets it: `ToHostCommand`, `Format`, `Parse`, `ToEvent`. -/
def acrossTheWire (a : ConversAction) : Except Fault (Option ConversEvent) :=
  match HostBridge.toHostCommand a with
  | none => .ok none
  | some command => do
    let read ← parse (format command)
    HostBridge.toEvent read

/-- **A personal text is read as it was written**, but for the marker. The marker stands for no text
on the wire, and cannot be told from a text. -/
theorem parse_format_hostUserData {user host text : Text} (huser : IsToken user)
    (hhost : IsToken host) (htext : IsFreeText text) :
    parse (format (hostUserData user host text)) =
      .ok (hostUserData user host (if text = ['@'] then [] else text)) := by
  have hbody : parseBody ("UDAT".toList ++ optionalField (emit (hostUserData user host text))) =
      parseUserData ⟨optionalField (emit (hostUserData user host text))⟩ :=
    parseBody_reader (by decide) (by decide) (stops_optionalField _) rfl
  have hrest : rest ⟨field (orAt text)⟩ = orAt text := by
    refine rest_blank ?_
    rw [orAt]
    split
    · decide
    · exact htext
  have hmark : (if orAt text = ['@'] then [] else orAt text) =
      if text = ['@'] then [] else text := by
    rcases eq_or_ne text [] with rfl | hne
    · rfl
    · have hself : orAt text = text := if_neg (by simpa [List.length_eq_zero_iff] using hne)
      rw [hself]
  have hread : parseUserData ⟨optionalField (emit (hostUserData user host text))⟩ =
      hostUserData user host (if text = ['@'] then [] else text) := by
    have huser' : next ⟨emit (hostUserData user host text)⟩ =
        (user, ⟨field host ++ field (orAt text)⟩) := by
      rw [emit, List.append_assoc]
      exact next_token huser (stops_field_append _ _)
    have hhost' : next ⟨field host ++ field (orAt text)⟩ = (host, ⟨field (orAt text)⟩) :=
      next_blank_token hhost (stops_field _)
    simp only [parseUserData, next_optionalField, huser', hhost', hrest, hmark]
  rw [parse, format_eq, stripPrefix_hostCommandPrefix]
  exact congrArg Except.ok (hbody.trans hread)

/-- A valid name is one word. -/
theorem isToken_of_isValidName {name : Text} (h : Callsigns.isValidName name = true) :
    IsToken name := by
  simp only [Callsigns.isValidName, Bool.and_eq_true, decide_eq_true_eq, List.all_eq_true,
    Bool.not_eq_true', Bool.or_eq_false_iff] at h
  refine ⟨fun hnil => h.1 (by rw [hnil]; rfl), fun c hc => ?_⟩
  by_contra hspace
  have hwhite := isWhiteSpace_of_isSpace (Bool.eq_true_of_not_eq_false hspace)
  rw [(h.2 c hc).1.1] at hwhite
  cases hwhite

/-- A text without a blank in front is read to the end. -/
theorem isFreeText_of_trim {t : Text} (h : trim t = t) : IsFreeText t := by
  intro c hc
  by_contra hspace
  have hwhite := isWhiteSpace_of_isSpace (Bool.eq_true_of_not_eq_false hspace)
  have hstart : t.dropWhile isWhiteSpace = t := by rw [← h, dropWhile_trim]
  rw [← hstart] at hc
  rw [head?_dropWhile hc] at hwhite
  cases hwhite

/-- A peer holds for the user what his session shows once the session has set a text and the
peer has got the send. -/
def HeldAsShown (h peer : Hub) (now now' : DateTimeOffset) (s : LocalSession) (text : Text) :
    Prop :=
  ∃ personal event, .sendPersonal s.callsign h.hostName personal ∈
      (h.advance now (.localSetPersonal s.id text)).actions ∧
    acrossTheWire (.sendPersonal s.callsign h.hostName personal) = .ok (some event) ∧
      ∃ u t, (step peer (now', event)).users.find? (s.callsign, h.hostName) = some u ∧
        (step h (now, .localSetPersonal s.id text)).sessions.find? s.id = some t ∧
          u.personal = t.personal

/-- **A peer holds what is shown unless it looks like the marker.** What a peer holds is the text
the session shows, in every other case. -/
theorem heldAsShown_iff (now now' : DateTimeOffset) {s : LocalSession} (hs : h.Attached s)
    (hpeer : peer.Filed) (hhost : h.hostName ≠ peer.hostName) {u : NetworkUser}
    (hu : peer.users.find? (s.callsign, h.hostName) = some u) (text : Text) :
    HeldAsShown h peer now now' s text ↔ ¬LooksEmpty text := by
  have hentry := hpeer.holds.users _ u hu
  have hkey : NetworkUser.key u = (s.callsign, h.hostName) := Table.key_of_find? hu
  obtain ⟨hname, hof⟩ := Prod.mk.inj hkey
  have hvalid := hentry.valid (by rw [hof]; exact hhost)
  have hcall := hentry.name
  have hown := hentry.host
  rw [hname, hof] at hvalid
  rw [hname] at hcall
  rw [hof] at hown
  obtain ⟨store, hset⟩ := localSetPersonal_of_keepsProfile now text hs
    (h.keepsProfile_of_isValidName hvalid.1)
  have htrim := trim_makePersonalConsistent text
  -- the text arrives trimmed, as it was stored, but a lone mark arrives as nothing
  have hwire : acrossTheWire (.sendPersonal s.callsign h.hostName (makePersonalConsistent text)) =
      .ok (some (.hostPersonal s.callsign h.hostName
        (if makePersonalConsistent text = ['@'] then [] else makePersonalConsistent text))) := by
    simp only [acrossTheWire, HostBridge.toHostCommand,
      parse_format_hostUserData (isToken_of_isValidName hvalid.1)
        (isToken_of_isValidName hvalid.2) (isFreeText_of_trim htrim)]
    rfl
  have hheld (personal : Text) : (step peer (now', .hostPersonal s.callsign h.hostName
      personal)).users.find? (s.callsign, h.hostName) =
        some { u with personal := resolvePersonal personal } := by
    simp only [Hub.step, advance, hostPersonal, hcall, hown, hu]
    rw [Table.find?_put]
    exact if_pos hkey.symm
  have hshown : (step h (now, .localSetPersonal s.id text)).sessions.find? s.id =
      some (personalSession s text) := by
    rw [Hub.step, advance, hset, find?_sessions_storeSession]
    exact if_pos rfl
  rw [← makePersonalConsistent_eq_marker_iff]
  constructor
  · -- the mark: the session has it, and its peer has no text
    rintro ⟨personal, event, hsend, hevent, u', t, hu', ht, hsame⟩ hmarker
    rw [advance, hset] at hsend
    obtain rfl : personal = makePersonalConsistent text := by simpa using hsend
    rw [hwire, if_pos hmarker] at hevent
    cases hevent
    rw [hheld] at hu'
    rw [hshown] at ht
    cases hu'
    cases ht
    rw [personalSession, hmarker] at hsame
    cases hsame
  · intro hmarker
    refine ⟨_, _, by rw [advance, hset]; exact List.mem_singleton_self _, hwire, _, _, hheld _,
      hshown, ?_⟩
    rw [if_neg hmarker, resolvePersonal, htrim]
    split
    · rename_i hempty
      exact (hempty.resolve_left hmarker).symm
    · rfl

/-- **A personal text is presented unbranded and unchanged** but for two kinds of text: a run
presents no brand when no text that a session sets has a second one and no join finds one in the
store, and a peer that lists the user holds what his session shows if and only if the text does
not look like the marker. -/
theorem presented_unchanged_iff {hostName : Text} {store : Option ConversStore} {start : Hub}
    (hnew : new hostName store = .ok start) (inputs : List Input) :
    ((∀ p ∈ Run.trace Hub.step start inputs, p.1.BringsNoBrand p.2.2) →
      ∀ p ∈ Run.trace Hub.step start inputs, ∀ a ∈ (p.1.advance p.2.1 p.2.2).actions,
        ¬PresentsBrand a) ∧
    ∀ h peer : Hub, Run.final Hub.step start inputs = peer → h.hostName ≠ peer.hostName →
      ∀ s, h.Attached s → (peer.users.find? (s.callsign, h.hostName)).isSome = true →
        ∀ (now now' : DateTimeOffset) (text : Text),
          HeldAsShown h peer now now' s text ↔ ¬LooksEmpty text := by
  constructor
  · intro hbrings
    exact not_presentsBrand_of_new hnew inputs hbrings
  · rintro h peer rfl hhost s hs hlists now now' text
    obtain ⟨u, hu⟩ := Option.isSome_iff_exists.mp hlists
    have hfiled : (Run.final Hub.step start inputs).Filed :=
      (Run.invariant (Filed.of_new hnew) inputs fun p _ hp => hp.step p.2.1 p.2.2).2
    exact heldAsShown_iff now now' hs hfiled hhost hu text

/-- A user joins and sets a branded text. -/
def exampleBranded (text : Text) : List Input :=
  [(⟨0, zero_ticks_le⟩, .localJoin "web-1".toList "m0abc".toList 7),
    (⟨0, zero_ticks_le⟩, .localSetPersonal "web-1".toList text)]

/-- A peer hears of him. -/
def exampleHeard : List Input :=
  [(⟨0, zero_ticks_le⟩, .hostUser "M0ABC".toList "NODE".toList ⟨0, zero_ticks_le⟩ (-1) 7 [] false)]

/-- The session of the user, once he has joined. -/
theorem exists_exampleBranded (text : Text) :
    ∃ s, (Run.final Hub.step (fresh "NODE".toList) ((exampleBranded text).take 1)).Attached s ∧
      s.callsign = "M0ABC".toList := by
  have hthere : ((Run.final Hub.step (fresh "NODE".toList)
      ((exampleBranded []).take 1)).sessions.find? "web-1".toList).any
        (fun s => s.id = "web-1".toList ∧ s.callsign = "M0ABC".toList) = true := by
    decide +kernel
  obtain ⟨s, hs, hwho⟩ := (Option.any_eq_true _ _).mp hthere
  exact ⟨s, attached_of_find? hs, (of_decide_eq_true hwho).2⟩

/-- A single brand comes off, and the peer holds the text. -/
theorem presented_unchanged_exampleBranded :
    (∀ p ∈ Run.trace Hub.step (fresh "NODE".toList) (exampleBranded "~ 73".toList),
      ∀ a ∈ (p.1.advance p.2.1 p.2.2).actions, ¬PresentsBrand a) ∧
    ∃ s, (Run.final Hub.step (fresh "NODE".toList)
        ((exampleBranded "~ 73".toList).take 1)).Attached s ∧
      (HeldAsShown (Run.final Hub.step (fresh "NODE".toList)
          ((exampleBranded "~ 73".toList).take 1))
        (Run.final Hub.step (fresh "PEER".toList) exampleHeard) ⟨0, zero_ticks_le⟩
          ⟨0, zero_ticks_le⟩ s "~ 73".toList ↔ ¬LooksEmpty "~ 73".toList) := by
  constructor
  · refine (presented_unchanged_iff (@new_none "NODE".toList (by decide)) _).1 fun p hp => ?_
    simp only [exampleBranded, Run.trace_cons, Run.trace_nil, List.mem_cons, List.not_mem_nil,
      or_false] at hp
    rcases hp with rfl | rfl
    · rintro - profile hprofile
      cases hprofile
    · rintro -
      rw [← branded_makePersonalConsistent_iff]
      decide
  · obtain ⟨s, hs, hcall⟩ := exists_exampleBranded "~ 73".toList
    refine ⟨s, hs, (presented_unchanged_iff (@new_none "PEER".toList (by decide))
      exampleHeard).2 _ _ rfl (by decide +kernel) s hs ?_ _ _ _⟩
    rw [hcall]
    decide +kernel

/-- **A second brand is presented, and a text that is the marker is held as none.** -/
theorem not_presented_unchanged :
    (¬ ∀ (hostName : Text) (store : Option ConversStore) (start : Hub),
      new hostName store = .ok start → ∀ inputs : List Input,
        ∀ p ∈ Run.trace Hub.step start inputs, ∀ a ∈ (p.1.advance p.2.1 p.2.2).actions,
          ¬PresentsBrand a) ∧
    ¬ ∀ (h peer start : Hub) (hostName : Text) (store : Option ConversStore) (inputs : List Input),
      new hostName store = .ok start → Run.final Hub.step start inputs = peer →
        h.hostName ≠ peer.hostName → ∀ s, h.Attached s →
          (peer.users.find? (s.callsign, h.hostName)).isSome = true →
            ∀ (now now' : DateTimeOffset) (text : Text), HeldAsShown h peer now now' s text := by
  constructor
  · intro hall
    have hno := hall "NODE".toList none _ (@new_none "NODE".toList (by decide))
      (exampleBranded "~ ~73".toList)
    have hsent : ∃ p ∈ Run.trace Hub.step (fresh "NODE".toList) (exampleBranded "~ ~73".toList),
        ∃ a ∈ (p.1.advance p.2.1 p.2.2).actions, PresentsBrand a := by
      decide +kernel
    obtain ⟨p, hp, a, ha, hbrand⟩ := hsent
    exact hno p hp a ha hbrand
  · intro hall
    obtain ⟨s, hs, hcall⟩ := exists_exampleBranded "@".toList
    have hnew := @new_none "PEER".toList (by decide)
    have hlists : ((Run.final Hub.step (fresh "PEER".toList) exampleHeard).users.find?
        (s.callsign, "NODE".toList)).isSome = true := by
      rw [hcall]
      decide +kernel
    have hheld := hall _ _ _ _ none exampleHeard hnew rfl (by decide +kernel) s hs hlists
      ⟨0, zero_ticks_le⟩ ⟨0, zero_ticks_le⟩ "@".toList
    have hfiled : (Run.final Hub.step (fresh "PEER".toList) exampleHeard).Filed :=
      (Run.invariant (Filed.of_new hnew) exampleHeard fun p _ hp => hp.step p.2.1 p.2.2).2
    obtain ⟨u, hu⟩ := Option.isSome_iff_exists.mp hlists
    rw [heldAsShown_iff _ _ hs hfiled (by decide +kernel) hu,
      ← makePersonalConsistent_eq_marker_iff] at hheld
    exact hheld (by decide)

end Peers

end Hub

end Convers
