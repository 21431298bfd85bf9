import Convers.Core.Presence

/-!
# The modes of a channel, here and at another host

A local operator edits the modes of a channel with a string of signs and letters, and
the hub sends the other hosts the modes that result, all of them. The hosts read what
they are sent the way an edit is read: the letters are set, and a letter that is not
there is left as it is. So a host never loses a mode (`Convers.Hub.mem_modesOf_mirror`),
and two hosts that agreed still agree exactly when every mode an edit took off a channel
is put back by a later one (`Convers.Hub.agree_mirror_iff`).
-/

namespace Convers

namespace ChannelModes

/-! ### What a string of options says -/

/-- What the options last say of a flag, from the sign in force: set it, clear it, or
nothing at all. -/
def lastSays (flag : ModeFlag) : Bool → Text → Option Bool
  | _, [] => none
  | removing, raw :: options =>
    if raw = '+' then lastSays flag false options
    else if raw = '-' then lastSays flag true options
    else
      (lastSays flag removing options).or
        (if flagOf raw = some flag then some (!removing) else none)

/-- The flags a channel takes: channel 0 has the topic lock only. -/
def Takes (isChannelZero : Bool) (flag : ModeFlag) : Prop :=
  isChannelZero = true → flag = .topicLocked

instance (isChannelZero : Bool) (flag : ModeFlag) : Decidable (Takes isChannelZero flag) :=
  inferInstanceAs (Decidable (_ → _))

/-- **The last word on a flag decides.** The loop over the letters is so replaced by a search from
the end of the edit. -/
theorem mem_applyLoop (isChannelZero removing : Bool) (modes : ChannelMode) (options : Text)
    (flag : ModeFlag) :
    flag ∈ applyLoop isChannelZero removing modes options ↔
      if Takes isChannelZero flag then (lastSays flag removing options).getD (flag ∈ modes)
      else flag ∈ modes := by
  induction options generalizing removing modes with
  | nil => simp [applyLoop, lastSays]
  | cons raw options ih =>
    rw [applyLoop, lastSays]
    split
    · exact ih false modes
    split
    · exact ih true modes
    rcases hflag : flagOf raw with _ | bit
    · simpa using ih removing modes
    · by_cases hzero : isChannelZero = true ∧ bit ≠ .topicLocked
      · have hother : Takes isChannelZero flag → bit ≠ flag := fun htakes heq =>
          hzero.2 (heq.trans (htakes hzero.1))
        simp only [if_pos hzero, Option.some.injEq, ih]
        split
        · rename_i htakes
          rw [if_neg (hother htakes), Option.or_none]
        · rfl
      · simp only [if_neg hzero, Option.some.injEq, ih]
        by_cases hbit : bit = flag
        · subst hbit
          have htakes : Takes isChannelZero bit := fun h => by_contra fun hne => hzero ⟨h, hne⟩
          rcases lastSays bit removing options with _ | said
          · cases removing <;> simp [htakes]
          · simp [htakes]
        · have hsame : flag ∈ (if removing then modes.erase bit else insert bit modes) ↔
              flag ∈ modes := by
            split <;> simp [Ne.symm hbit]
          simp only [if_neg hbit, Option.or_none, hsame]

/-- The letters of some flags, with nothing but their signs before them, set these
flags. -/
theorem lastSays_letters (flag : ModeFlag) {l : List (ModeFlag × Char)} (hl : l ⊆ letters) :
    lastSays flag false (l.map Prod.snd) = if flag ∈ l.map Prod.fst then some true else none := by
  induction l with
  | nil => rfl
  | cons entry l ih =>
    have hentry : flagOf entry.2 = some entry.1 ∧ entry.2 ≠ '+' ∧ entry.2 ≠ '-' := by
      have hmem := hl (List.mem_cons_self)
      simp only [letters, List.mem_cons, List.not_mem_nil, or_false] at hmem
      rcases hmem with rfl | rfl | rfl | rfl | rfl | rfl <;> decide
    obtain ⟨hflag, hplus, hminus⟩ := hentry
    rw [List.map_cons, lastSays, if_neg hplus, if_neg hminus,
      ih (List.subset_of_cons_subset hl), hflag, List.map_cons]
    by_cases hmem : flag ∈ l.map Prod.fst
    · rw [if_pos hmem, if_pos (List.mem_cons_of_mem _ hmem)]
      rfl
    · by_cases heq : entry.1 = flag
      · simp [hmem, heq]
      · simp [hmem, heq, Ne.symm heq]

/-- What the modes of a channel say when they are sent: set each of them. -/
theorem lastSays_toWire (flag : ModeFlag) (modes : ChannelMode) :
    lastSays flag false (toWire modes) = if flag ∈ modes then some true else none := by
  have hsub : letters.filter (·.1 ∈ modes) ⊆ letters := List.filter_sublist.subset
  have hmem : flag ∈ (letters.filter (·.1 ∈ modes)).map Prod.fst ↔ flag ∈ modes := by
    cases flag <;> simp [letters]
  rw [toWire]
  split
  · rename_i hnone
    have hempty : letters.filter (·.1 ∈ modes) = [] := by
      simpa using hnone
    have hnot : flag ∉ modes := fun h => by
      rw [← hmem, hempty] at h
      cases h
    rw [if_neg hnot]
    rfl
  · rw [lastSays, if_pos rfl, lastSays_letters flag hsub]
    simp only [hmem]

/-- **Modes that are sent are added.** Nothing is taken away by them, which is why the two hosts
drift apart. -/
theorem mem_apply_toWire (start modes : ChannelMode) (isChannelZero : Bool) (flag : ModeFlag) :
    flag ∈ apply start (toWire modes) isChannelZero ↔
      flag ∈ start ∨ (Takes isChannelZero flag ∧ flag ∈ modes) := by
  rw [apply, mem_applyLoop, lastSays_toWire]
  by_cases htakes : Takes isChannelZero flag
  · by_cases hmem : flag ∈ modes
    · simp [htakes, hmem]
    · simp [htakes, hmem]
  · simp [htakes]

end ChannelModes

namespace Hub

/-! ### An edit -/

/-- An edit of the modes of a channel, by a session. -/
structure ModeEdit where
  sessionId : Text
  channel : Int32
  options : Text
  deriving DecidableEq

/-- The event of an edit. -/
def ModeEdit.event (edit : ModeEdit) : ConversEvent :=
  .localSetMode edit.sessionId edit.channel edit.options

/-- Whether an edit is accepted: its session is attached, the channel is one, and the
callsign is an operator there. -/
def acceptsEdit (h : Hub) (edit : ModeEdit) : Bool :=
  match h.sessions.find? edit.sessionId with
  | some session => ChannelNumber.isValid edit.channel &&
      (h.isGlobalOperator session.callsign || h.isChannelOperator session.callsign edit.channel)
  | none => false

/-- The modes an edit asks for. -/
def edited (h : Hub) (edit : ModeEdit) : ChannelMode :=
  ChannelModes.apply (h.modesOf edit.channel) edit.options (edit.channel = ChannelNumber.random)

theorem modesOf_setModes (h : Hub) (channel : Int32) (modes : ChannelMode) (c : Int32) :
    (h.setModes channel modes).modesOf c = if c = channel then modes else h.modesOf c := by
  simp only [modesOf, setModes, Table.Dict.get?_set]
  by_cases hc : c = channel
  · simp only [if_pos hc]
  · simp only [if_neg hc]

variable (now : DateTimeOffset) (h : Hub) (edit : ModeEdit)

/-- An edit that is not accepted, or changes nothing, does nothing. -/
theorem localSetMode_of_idle
    (hidle : h.acceptsEdit edit = false ∨ h.edited edit = h.modesOf edit.channel) :
    (h.advance now edit.event).hub = h ∧
      ∀ channel options, .sendMode channel options ∉ (h.advance now edit.event).actions := by
  simp only [ModeEdit.event, advance, localSetMode]
  rcases hs : h.sessions.find? edit.sessionId with _ | session
  · exact ⟨rfl, fun _ _ hsend => absurd hsend List.not_mem_nil⟩
  · simp only [acceptsEdit, hs, edited] at hidle
    dsimp only
    split
    · exact ⟨rfl, fun _ _ hsend => absurd hsend List.not_mem_nil⟩
    rename_i hvalid
    split
    · simp [refuse]
    rename_i hop
    rcases hidle with hrefused | hsame
    · simp_all
    · rw [if_pos hsame]
      exact ⟨rfl, fun _ _ hsend => absurd hsend List.not_mem_nil⟩

/-- **An edit that changes the modes sets them and sends them.** What is sent are the modes there
are afterwards, not the edit. -/
theorem localSetMode_of_changes (haccepts : h.acceptsEdit edit = true)
    (hchanges : h.edited edit ≠ h.modesOf edit.channel) :
    h.advance now edit.event =
      ⟨h.setModes edit.channel (h.edited edit),
        .sendMode edit.channel (ChannelModes.toWire (h.edited edit)) ::
          (h.setModes edit.channel (h.edited edit)).notifyModeChange edit.channel
            (h.edited edit), none⟩ := by
  simp only [ModeEdit.event, advance, localSetMode]
  rcases hs : h.sessions.find? edit.sessionId with _ | session
  · simp [acceptsEdit, hs] at haccepts
  · simp only [acceptsEdit, hs, Bool.and_eq_true] at haccepts
    obtain ⟨hvalid, hop⟩ := haccepts
    have hnot : ¬((!h.isGlobalOperator session.callsign &&
        !h.isChannelOperator session.callsign edit.channel) = true) := by
      rw [← Bool.not_or, hop]
      exact Bool.false_ne_true
    rw [edited] at hchanges
    simp only [hvalid, Bool.not_true, Bool.false_eq_true, if_false, if_neg hnot, if_neg hchanges,
      edited]

/-- The modes after an edit. -/
theorem modesOf_edit (c : Int32) :
    (h.advance now edit.event).hub.modesOf c =
      if h.acceptsEdit edit ∧ c = edit.channel then h.edited edit else h.modesOf c := by
  by_cases hidle : h.acceptsEdit edit = false ∨ h.edited edit = h.modesOf edit.channel
  · rw [(localSetMode_of_idle now h edit hidle).1]
    split
    · rename_i hc
      obtain ⟨haccepts, rfl⟩ := hc
      rcases hidle with hrefused | hsame
      · rw [hrefused] at haccepts
        cases haccepts
      · exact hsame.symm
    · rfl
  · obtain ⟨haccepts, hchanges⟩ := not_or.mp hidle
    rw [Bool.not_eq_false] at haccepts
    rw [localSetMode_of_changes now h edit haccepts hchanges, modesOf_setModes]
    simp [haccepts]

/-- An edit leaves alone who may edit. -/
theorem acceptsEdit_edit (edit' : ModeEdit) :
    (h.advance now edit.event).hub.acceptsEdit edit' = h.acceptsEdit edit' := by
  by_cases hidle : h.acceptsEdit edit = false ∨ h.edited edit = h.modesOf edit.channel
  · rw [(localSetMode_of_idle now h edit hidle).1]
  · obtain ⟨haccepts, hchanges⟩ := not_or.mp hidle
    rw [localSetMode_of_changes now h edit (by simpa using haccepts) hchanges]
    rfl

/-! ### Another host -/

/-- The event another host sees of a change of modes. -/
def modeEventOf : ConversAction → Option ConversEvent
  | .sendMode channel options => some (.hostMode channel options)
  | _ => none

/-- The events a host sees of an answer, applied there. -/
def follow (b : Hub) (actions : List ConversAction) : Hub :=
  (actions.filterMap modeEventOf).foldl (fun b event => (b.advance now event).hub) b

/-- An edit here, and what another host makes of it. -/
def mirror (pair : Hub × Hub) (input : DateTimeOffset × ModeEdit) : Hub × Hub :=
  let answer := pair.1.advance input.1 input.2.event
  (answer.hub, follow input.1 pair.2 answer.actions)

/-- Two hubs have the same modes on every channel. -/
def Agree (a b : Hub) : Prop := ∀ channel, a.modesOf channel = b.modesOf channel

theorem modesOf_hostMode (channel : Int32) (options : Text) (c : Int32) :
    (h.advance now (.hostMode channel options)).hub.modesOf c =
      if ChannelNumber.isValid channel ∧ c = channel then
        ChannelModes.apply (h.modesOf channel) options (channel = ChannelNumber.random)
      else h.modesOf c := by
  simp only [advance, hostMode]
  by_cases hvalid : ChannelNumber.isValid channel = true
  · simp only [hvalid, Bool.not_true, Bool.false_eq_true, if_false, true_and]
    split
    · rename_i hsame
      split
      · rename_i hc
        rw [hc]
        exact hsame.symm
      · rfl
    · rw [modesOf_setModes]
  · simp [hvalid, ignore]

/-- The edits without the actions for the other hosts. -/
theorem follow_edit (b : Hub) :
    follow now b (h.advance now edit.event).actions =
      if h.acceptsEdit edit ∧ h.edited edit ≠ h.modesOf edit.channel then
        (b.advance now (.hostMode edit.channel (ChannelModes.toWire (h.edited edit)))).hub
      else b := by
  have hnone : ∀ actions : List ConversAction,
      (∀ channel options, .sendMode channel options ∉ actions) →
        actions.filterMap modeEventOf = [] := by
    intro actions hno
    refine List.filterMap_eq_nil_iff.mpr fun a ha => ?_
    cases a with
    | sendMode channel options => exact absurd ha (hno channel options)
    | _ => rfl
  split
  · rename_i hchanges
    have hrest := hnone ((h.setModes edit.channel (h.edited edit)).notifyModeChange edit.channel
      (h.edited edit)) (by simp [notifyModeChange])
    simp only [localSetMode_of_changes now h edit hchanges.1 hchanges.2, follow,
      List.filterMap_cons, modeEventOf, hrest, List.foldl_cons, List.foldl_nil]
  · rename_i hidle
    have hsame : h.acceptsEdit edit = false ∨ h.edited edit = h.modesOf edit.channel := by
      by_contra hcon
      obtain ⟨haccepts, hchanges⟩ := not_or.mp hcon
      exact hidle ⟨by simpa using haccepts, hchanges⟩
    rw [follow, hnone _ (localSetMode_of_idle now h edit hsame).2]
    rfl

/-- **The other host only gains modes**: what it had, and what results here. Two that agree so go on
to agree as long as nothing is taken away. -/
theorem mem_modesOf_follow {b : Hub} (hsub : ∀ c, h.modesOf c ⊆ b.modesOf c) (c : Int32)
    (flag : ModeFlag) :
    flag ∈ (follow now b (h.advance now edit.event).actions).modesOf c ↔
      flag ∈ b.modesOf c ∨ flag ∈ (h.advance now edit.event).hub.modesOf c := by
  rw [follow_edit, modesOf_edit]
  by_cases haccepts : h.acceptsEdit edit = true
  swap
  · simp only [haccepts, false_and, if_false, Bool.false_eq_true]
    exact ⟨Or.inl, fun h' => h'.elim id fun hf => hsub c hf⟩
  by_cases hc : c = edit.channel
  swap
  · have hkept : ∀ options, (b.advance now (.hostMode edit.channel options)).hub.modesOf c =
        b.modesOf c := fun options => by
      rw [modesOf_hostMode, if_neg fun h' => hc h'.2]
    simp only [haccepts, hc, and_false, if_false]
    split
    · rw [hkept]
      exact ⟨Or.inl, fun h' => h'.elim id fun hf => hsub c hf⟩
    · exact ⟨Or.inl, fun h' => h'.elim id fun hf => hsub c hf⟩
  subst hc
  simp only [haccepts, true_and, if_true]
  have hvalid : ChannelNumber.isValid edit.channel = true := by
    rw [acceptsEdit] at haccepts
    split at haccepts
    · exact (Bool.and_eq_true _ _ ▸ haccepts).1
    · cases haccepts
  by_cases hchanges : h.edited edit = h.modesOf edit.channel
  · rw [if_neg (not_not.mpr hchanges), hchanges]
    exact ⟨Or.inl, fun h' => h'.elim id fun hf => hsub _ hf⟩
  · rw [if_pos hchanges, modesOf_hostMode, if_pos ⟨hvalid, rfl⟩, ChannelModes.mem_apply_toWire]
    refine or_congr_right' fun hnot => and_iff_right_of_imp fun hmem => ?_
    -- a flag the channel does not take is there only if it was there before
    by_contra htakes
    rw [edited, ChannelModes.apply, ChannelModes.mem_applyLoop, if_neg htakes,
      decide_eq_true_eq] at hmem
    exact hnot (hsub _ hmem)

/-! ### A run of edits -/

/-- The run of edits at one hub. -/
def edits (h : Hub) (inputs : List (DateTimeOffset × ModeEdit)) : Hub :=
  Run.final step h (inputs.map fun input => (input.1, input.2.event))

@[simp] theorem edits_nil : h.edits [] = h := rfl

@[simp] theorem edits_cons (input : DateTimeOffset × ModeEdit)
    (inputs : List (DateTimeOffset × ModeEdit)) :
    h.edits (input :: inputs) = (h.advance input.1 input.2.event).hub.edits inputs := rfl

theorem edits_append (inputs inputs' : List (DateTimeOffset × ModeEdit)) :
    h.edits (inputs ++ inputs') = (h.edits inputs).edits inputs' := by
  rw [edits, List.map_append, Run.final_append]
  rfl

theorem mirror_fst (b : Hub) (inputs : List (DateTimeOffset × ModeEdit)) :
    (Run.final mirror (h, b) inputs).1 = h.edits inputs := by
  induction inputs generalizing h b with
  | nil => rfl
  | cons input inputs ih => exact ih _ _

/-- **What the other host ends with**: every mode a channel had at any point of the run. The
induction is on the run, with what the other host has gathered so far as its invariant. -/
theorem mem_modesOf_mirror {b : Hub} (hsub : ∀ c, h.modesOf c ⊆ b.modesOf c)
    (inputs : List (DateTimeOffset × ModeEdit)) (c : Int32) (flag : ModeFlag) :
    flag ∈ (Run.final mirror (h, b) inputs).2.modesOf c ↔
      flag ∈ b.modesOf c ∨ ∃ before after, inputs = before ++ after ∧
        flag ∈ (h.edits before).modesOf c := by
  induction inputs generalizing h b with
  | nil =>
    refine ⟨Or.inl, ?_⟩
    rintro (hb | ⟨before, after, hsplit, hmem⟩)
    · exact hb
    · obtain ⟨rfl, -⟩ := List.append_eq_nil_iff.mp hsplit.symm
      exact hsub c hmem
  | cons input inputs ih =>
    have hfollow := mem_modesOf_follow input.1 h input.2 hsub
    have hsub' : ∀ c, (h.advance input.1 input.2.event).hub.modesOf c ⊆
        (follow input.1 b (h.advance input.1 input.2.event).actions).modesOf c :=
      fun c flag hmem => (hfollow c flag).mpr (Or.inr hmem)
    rw [Run.final_cons]
    refine (ih _ hsub').trans ?_
    rw [hfollow]
    constructor
    · rintro ((hb | hhere) | ⟨before, after, rfl, hmem⟩)
      · exact Or.inl hb
      · exact Or.inr ⟨[input], inputs, rfl, hhere⟩
      · exact Or.inr ⟨input :: before, after, rfl, hmem⟩
    · rintro (hb | ⟨before, after, hsplit, hmem⟩)
      · exact Or.inl (Or.inl hb)
      · cases before with
        | nil => exact Or.inl (Or.inl (hsub c hmem))
        | cons first before =>
          obtain ⟨rfl, rfl⟩ := List.cons.inj hsplit
          exact Or.inr ⟨before, after, rfl, hmem⟩

/-- An accepted edit whose options end up setting a flag of a channel. -/
def PutsOn (edit : ModeEdit) (c : Int32) (flag : ModeFlag) : Prop :=
  h.acceptsEdit edit ∧ edit.channel = c ∧
    ChannelModes.Takes (c = ChannelNumber.random) flag ∧
      ChannelModes.lastSays flag false edit.options = some true

/-- An accepted edit whose options end up clearing a flag that a channel has. -/
def TakesOff (edit : ModeEdit) (c : Int32) (flag : ModeFlag) : Prop :=
  h.acceptsEdit edit ∧ edit.channel = c ∧ flag ∈ h.modesOf c ∧
    ChannelModes.Takes (c = ChannelNumber.random) flag ∧
      ChannelModes.lastSays flag false edit.options = some false

/-- **Every flag an edit takes off a channel is put back by a later edit.** -/
def PutsBack (inputs : List (DateTimeOffset × ModeEdit)) : Prop :=
  ∀ before input after, inputs = before ++ input :: after → ∀ c flag,
    (h.edits before).TakesOff input.2 c flag → ∃ later ∈ after, h.PutsOn later.2 c flag

/-- A flag after an edit: set by it, or there before and not cleared by it. -/
theorem mem_modesOf_edit (c : Int32) (flag : ModeFlag) :
    flag ∈ (h.advance now edit.event).hub.modesOf c ↔
      h.PutsOn edit c flag ∨ (flag ∈ h.modesOf c ∧ ¬h.TakesOff edit c flag) := by
  rw [modesOf_edit]
  by_cases hedit : h.acceptsEdit edit = true ∧ c = edit.channel
  · obtain ⟨haccepts, rfl⟩ := hedit
    rw [if_pos ⟨haccepts, rfl⟩, edited, ChannelModes.apply, ChannelModes.mem_applyLoop]
    simp only [PutsOn, TakesOff, haccepts, true_and]
    by_cases htakes : ChannelModes.Takes (decide (edit.channel = ChannelNumber.random)) flag
    · rcases ChannelModes.lastSays flag false edit.options with _ | _ | _
      · simp [htakes]
      · simp [htakes]
      · simp [htakes]
    · simp [htakes]
  · rw [if_neg hedit]
    have hput : ¬h.PutsOn edit c flag := fun hp => hedit ⟨hp.1, hp.2.1.symm⟩
    have htake : ¬h.TakesOff edit c flag := fun ht => hedit ⟨ht.1, ht.2.1.symm⟩
    simp [hput, htake]

theorem putsOn_edits (inputs : List (DateTimeOffset × ModeEdit)) {c : Int32} {flag : ModeFlag} :
    (h.edits inputs).PutsOn edit c flag ↔ h.PutsOn edit c flag := by
  induction inputs generalizing h with
  | nil => rfl
  | cons input inputs ih =>
    rw [edits_cons, ih]
    simp only [PutsOn, acceptsEdit_edit]

/-- The rest of a run puts back what it takes off. -/
theorem PutsBack.edits {before after : List (DateTimeOffset × ModeEdit)}
    (hback : h.PutsBack (before ++ after)) : (h.edits before).PutsBack after := by
  intro first input rest hsplit c flag htake
  rw [← edits_append] at htake
  obtain ⟨later, hlater, hputs⟩ :=
    hback (before ++ first) input rest (by simp [hsplit]) c flag htake
  exact ⟨later, hlater, (putsOn_edits h later.2 before).mpr hputs⟩

/-- A flag that a channel has, or that a later edit sets, is there in the end. -/
theorem PutsBack.mem_modesOf {inputs : List (DateTimeOffset × ModeEdit)} (hback : h.PutsBack inputs)
    {c : Int32} {flag : ModeFlag}
    (hflag : flag ∈ h.modesOf c ∨ ∃ later ∈ inputs, h.PutsOn later.2 c flag) :
    flag ∈ (h.edits inputs).modesOf c := by
  induction inputs generalizing h with
  | nil =>
    rcases hflag with hmem | ⟨later, hlater, -⟩
    · exact hmem
    · cases hlater
  | cons input inputs ih =>
    have hrest : (h.advance input.1 input.2.event).hub.PutsBack inputs :=
      PutsBack.edits h (show h.PutsBack ([input] ++ inputs) from hback)
    refine ih _ hrest ?_
    by_cases hnext : flag ∈ (h.advance input.1 input.2.event).hub.modesOf c
    · exact Or.inl hnext
    · have hlater : ∃ later ∈ inputs, h.PutsOn later.2 c flag := by
        rw [mem_modesOf_edit, not_or, not_and_not_right] at hnext
        rcases hflag with hmem | ⟨later, hmem, hputs⟩
        · exact hback [] input inputs rfl c flag (hnext.2 hmem)
        · rcases List.mem_cons.mp hmem with rfl | hmem
          · exact absurd hputs hnext.1
          · exact ⟨later, hmem, hputs⟩
      obtain ⟨later, hmem, hputs⟩ := hlater
      exact Or.inr ⟨later, hmem, (putsOn_edits h later.2 [input]).mpr hputs⟩

/-- A flag that is there in the end was there at the start or was set on the way. -/
theorem exists_putsOn {inputs : List (DateTimeOffset × ModeEdit)} {c : Int32} {flag : ModeFlag}
    (hend : flag ∈ (h.edits inputs).modesOf c) :
    flag ∈ h.modesOf c ∨ ∃ later ∈ inputs, h.PutsOn later.2 c flag := by
  induction inputs generalizing h with
  | nil => exact Or.inl hend
  | cons input inputs ih =>
    rcases ih _ hend with hmem | ⟨later, hmem, hputs⟩
    · rcases (mem_modesOf_edit input.1 h input.2 c flag).mp hmem with hputs | ⟨hmem, -⟩
      · exact Or.inr ⟨input, List.mem_cons_self, hputs⟩
      · exact Or.inl hmem
    · exact Or.inr ⟨later, List.mem_cons_of_mem _ hmem,
        (putsOn_edits h later.2 [input]).mp hputs⟩

/-- **Two hosts that agreed still agree iff every mode an edit takes off a channel is put back by a
later one.** So two hosts drift apart at the first edit that is never undone. -/
theorem agree_mirror_iff {a b : Hub} (hagree : a.Agree b)
    (inputs : List (DateTimeOffset × ModeEdit)) :
    (Run.final mirror (a, b) inputs).1.Agree (Run.final mirror (a, b) inputs).2 ↔
      a.PutsBack inputs := by
  have hsub : ∀ c, a.modesOf c ⊆ b.modesOf c := fun c => (hagree c).subset
  have hthere := mem_modesOf_mirror a hsub inputs
  rw [mirror_fst]
  constructor
  · intro hend before input after hsplit c flag htake
    have hlast : flag ∈ (a.edits inputs).modesOf c := by
      rw [hend c, hthere]
      exact Or.inr ⟨before, input :: after, hsplit, htake.2.2.1⟩
    rw [hsplit, edits_append, edits_cons] at hlast
    rcases exists_putsOn _ hlast with hmem | ⟨later, hmem, hputs⟩
    · -- what is taken off is not there at the next edit
      rcases (mem_modesOf_edit input.1 (a.edits before) input.2 c flag).mp hmem with
        hputs | ⟨-, hnot⟩
      · have hsaid := hputs.2.2.2
        rw [htake.2.2.2.2] at hsaid
        cases hsaid
      · exact absurd htake hnot
    · have hputs' := (putsOn_edits (a.edits before) later.2 [input]).mp hputs
      exact ⟨later, hmem, (putsOn_edits a later.2 before).mp hputs'⟩
  · intro hback c
    refine Finset.Subset.antisymm (fun flag hmem => (hthere c flag).mpr
      (Or.inr ⟨inputs, [], by simp, hmem⟩)) fun flag hmem => ?_
    rcases (hthere c flag).mp hmem with hb | ⟨before, after, rfl, hhad⟩
    · rw [← hagree c] at hb
      exact hback.mem_modesOf a (Or.inl hb)
    · rw [edits_append]
      exact (PutsBack.edits a hback).mem_modesOf _ (Or.inl hhad)

/-- A hub with an operator of channel 7. -/
def exampleOperator : Hub :=
  let h := ((fresh "NODE".toList).advance ⟨0, zero_ticks_le⟩
    (.localJoin "web-1".toList "m0abc".toList 7)).hub
  (h.advance ⟨0, zero_ticks_le⟩ (.localSetOperator "web-1".toList 7 true)).hub

/-- An edit of channel 7 by the operator. -/
def exampleEdit (options : String) : DateTimeOffset × ModeEdit :=
  (⟨0, zero_ticks_le⟩, ⟨"web-1".toList, 7, options.toList⟩)

/-- A mode that is set arrives. -/
theorem agree_mirror_moderated :
    (Run.final mirror (exampleOperator, fresh "PARENT".toList) [exampleEdit "+m"]).1.Agree
        (Run.final mirror (exampleOperator, fresh "PARENT".toList) [exampleEdit "+m"]).2 ↔
      exampleOperator.PutsBack [exampleEdit "+m"] :=
  agree_mirror_iff (fun _ => rfl) [exampleEdit "+m"]

/-- **A mode that is taken off stays on at the other host.** The word on the wire has the flags that
are set, and the other host only adds. -/
theorem not_agree_mirror_moderated :
    ¬(Run.final mirror (exampleOperator, fresh "PARENT".toList)
        [exampleEdit "+mt", exampleEdit "-m"]).1.Agree
      (Run.final mirror (exampleOperator, fresh "PARENT".toList)
        [exampleEdit "+mt", exampleEdit "-m"]).2 := by
  intro hagree
  have hflags := hagree 7
  revert hflags
  decide +kernel

end Hub

end Convers
