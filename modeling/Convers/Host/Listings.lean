import Convers.Core.Authority

/-!
# The whole-network listings

Three listings show the whole network: `who *` of an RF session, the network table of the web
page `who`, and `ListChannels`. The numbers of the channels that are secret or invisible are
hidden from the last one. `Convers.Hub.renumber` gives the hub with the channels under other
numbers, and `Convers.Hub.SameListings` is that a user sees no difference between the two. Only
`ListChannels` has the rule, so that a user who is on such a channel gives its number away:
the listings are the same exactly when no user is on a channel whose number differs
(`Convers.Hub.sameListings_iff`).
-/

namespace Convers

/-- `ChannelModes.IsHidden`. -/
def ChannelModes.isHidden (modes : ChannelMode) : Bool :=
  .secretFlag ∈ modes || .invisible ∈ modes

/-- A snapshot of a channel. -/
structure Channel where
  number : Int32
  topic : Text
  topicSetBy : Text
  topicSetAt : Option DateTimeOffset
  modes : ChannelMode
  users : List NetworkUser
  deriving DecidableEq

namespace Hub

/-- `GetChannel`. -/
def getChannel (h : Hub) (channel : Int32) : Channel :=
  let state := h.channels.get? channel
  { number := channel
    topic := (state.map ChannelState.topic).getD []
    topicSetBy := (state.map ChannelState.topicSetBy).getD []
    topicSetAt := state.bind ChannelState.topicSetAt
    modes := (state.map ChannelState.modes).getD ∅
    users := (h.users.records.filter fun u => u.channel = channel).mergeSort userLE }

/-- The channels that have members or metadata. -/
def knownChannels (h : Hub) : List Int32 :=
  (h.users.records.map NetworkUser.channel ++ h.channels.records.map Prod.fst).dedup

/-- `ListChannels`. -/
def listChannelsOf (h : Hub) (includeHidden : Bool) : List Channel :=
  ((h.knownChannels.filter fun n =>
    includeHidden || !ChannelModes.isHidden (h.modesOf n)).mergeSort (· ≤ ·)).map h.getChannel

end Hub

namespace RfUserSession

/-- `FormatUser`. -/
def formatUser (u : NetworkUser) : Text :=
  let flags := if u.isAway then " (away)".toList else []
  let pers := if u.personal.length = 0 then [] else " - ".toList ++ u.personal
  "  ".toList ++ u.name ++ '@' :: u.host ++ " ch ".toList ++
    (decimal u.channel.toInt ++ flags ++ pers)

/-- The lines of `HandleWhoAsync`. -/
def handleWho (h : Hub) (sessionId : Text) (defaultChannel : Int32) (argument : Text) : List Text :=
  let arg := trim argument
  let wholeNetwork := arg = ['*'] || arg = "all".toList || arg = "ALL".toList || arg = ['n']
  let result :=
    if wholeNetwork then "Users on the network:".toList :: h.networkUsers.map formatUser
    else
      let current := ((h.sessions.find? sessionId).map LocalSession.channel).getD defaultChannel
      ("Users on channel ".toList ++ decimal current.toInt ++ [':']) ::
        (h.getChannel current).users.map formatUser
  if result.length = 1 then result ++ ["  (nobody)".toList] else result

/-- `WriteLineAsync`. -/
def writeLine (line : Text) : Text := line ++ [cr]

/-- The loop of `WritePagedAsync`: what is written, with the answers read at the prompts. No
answer is a terminal that has closed. -/
def writePaged (pageLength : Int32) : ℕ → List Text → List Text → List Text
  | _, _, [] => []
  | sincePrompt, responses, line :: lines =>
    writeLine line ::
      if pageLength > 0 ∧ (sincePrompt + 1 : ℤ) ≥ pageLength.toInt ∧ lines ≠ [] then
        writeLine "<A>bort, <CR> Continue..>".toList ::
          match responses with
          | [] => []
          | response :: responses =>
            let response := toUpperInvariant (trim response)
            if response = ['A'] ∨ response = "ABORT".toList then
              [writeLine "Output aborted".toList]
            else writePaged pageLength 0 responses lines
      else writePaged pageLength (sincePrompt + 1) responses lines

/-- What `HandleWhoAsync` writes. -/
def whoOutput (h : Hub) (sessionId : Text) (defaultChannel pageLength : Int32) (argument : Text)
    (responses : List Text) : List Text :=
  writePaged pageLength 0 responses (handleWho h sessionId defaultChannel argument)

end RfUserSession

namespace WebChat

/-- A character in `WebUtility.HtmlEncode`. -/
def htmlEncodeChar (c : Char) : Text :=
  if c = '<' then "&lt;".toList
  else if c = '>' then "&gt;".toList
  else if c = '"' then "&quot;".toList
  else if c = '\'' then "&#39;".toList
  else if c = '&' then "&amp;".toList
  else if (160 ≤ c.toNat ∧ c.toNat < 256) ∨ 0x10000 ≤ c.toNat then
    "&#".toList ++ decimal c.toNat ++ [';']
  else [c]

/-- `H`. -/
def htmlEncode (text : Text) : Text := text.flatMap htmlEncodeChar

/-- A row of `RenderNetwork`. -/
def renderRow (me : Text) (u : NetworkUser) : Text :=
  let meTag := if Callsigns.equal u.name me then " (you)".toList else []
  let away := if u.isAway then "away".toList else []
  "<tr><td><b>".toList ++ htmlEncode u.name ++ "</b>".toList ++ htmlEncode meTag ++
    "</td><td>".toList ++ htmlEncode u.host ++ "</td><td>".toList ++
      (decimal u.channel.toInt ++ '<' :: ("/td><td class=\"dim\">".toList ++ htmlEncode away ++
        "</td></tr>".toList))

/-- `RenderNetwork`. -/
def renderNetwork (users : List NetworkUser) (me : Text) : Text :=
  if users.length = 0 then "<p class=\"dim\">Nobody on the network.</p>".toList
  else
    "<table><tr><th>User</th><th>Host</th><th>Ch</th><th></th></tr>".toList ++
      users.flatMap (renderRow me) ++ "</table>".toList

end WebChat

namespace Hub

/-! ### A hub under other channel numbers -/

section Renumber

variable (ρ : Equiv.Perm Int32)

/-- A user under another channel number. -/
def renumberUser (u : NetworkUser) : NetworkUser := { u with channel := ρ u.channel }

/-- **A hub with the channels under other numbers.** -/
def renumber (h : Hub) : Hub where
  hostName := h.hostName
  sessions := h.sessions.rename (fun s => { s with
    channel := ρ s.channel, invitedChannels := s.invitedChannels.image ρ })
    Function.injective_id fun _ => rfl
  users := h.users.rename (renumberUser ρ) Function.injective_id fun _ => rfl
  channels := h.channels.rename (fun p => (ρ p.1, p.2)) ρ.injective fun _ => rfl
  globalOps := h.globalOps
  channelOps := h.channelOps.rename (fun p => (ρ p.1, p.2)) ρ.injective fun _ => rfl
  invites := h.invites.rename (fun p => (p.1, p.2.image ρ)) Function.injective_id fun _ => rfl
  store := h.store.map fun s => { s with
    topics := s.topics.rename (fun t => { t with channel := ρ t.channel }) ρ.injective
      fun _ => rfl }

/-- **Only hidden channels are renumbered, and none that the viewer is on**, who is not an
operator. -/
structure Disguises (h : Hub) (viewer : LocalSession) : Prop where
  attached : h.Attached viewer
  not_operator : viewer.isOperator = false
  hidden : ∀ c ∈ h.knownChannels, ρ c ≠ c → ChannelModes.isHidden (h.modesOf c) = true
  absent : ρ viewer.channel = viewer.channel

/-- **A user sees the same** in the listings of two hubs. -/
structure SameListings (h h' : Hub) (viewer : LocalSession) : Prop where
  /-- `who *` writes the same, -/
  who : ∀ defaultChannel pageLength responses,
    RfUserSession.whoOutput h viewer.id defaultChannel pageLength ['*'] responses =
      RfUserSession.whoOutput h' viewer.id defaultChannel pageLength ['*'] responses
  /-- the web page shows the same table, -/
  network : WebChat.renderNetwork h.networkUsers viewer.callsign =
    WebChat.renderNetwork h'.networkUsers viewer.callsign
  /-- and the channels listed are the same. -/
  channels : h.listChannelsOf false = h'.listChannelsOf false

end Renumber

end Hub

/-! ### What the listings give away -/

namespace RfUserSession

/-- **A line of `who` gives the channel number away.** It looks at no mode of the channel, so a
secret one is no exception. -/
theorem formatUser_renumberUser (ρ : Equiv.Perm Int32) (u : NetworkUser) :
    formatUser (Hub.renumberUser ρ u) = formatUser u ↔ ρ u.channel = u.channel := by
  constructor
  · intro h
    have hnumber := List.append_cancel_right (List.append_cancel_right (List.append_cancel_left h))
    exact Int32.toInt_inj.mp (decimal_injective hnumber)
  · intro h
    rw [Hub.renumberUser, h]

/-- Without pages every line is written. -/
theorem writePaged_zero (sincePrompt : ℕ) (responses lines : List Text) :
    writePaged 0 sincePrompt responses lines = lines.map writeLine := by
  induction lines generalizing sincePrompt with
  | nil => rw [writePaged, List.map_nil]
  | cons line lines ih =>
    rw [writePaged.eq_def]
    dsimp only
    rw [if_neg (by simp), ih, List.map_cons]

theorem writeLine_injective : Function.Injective writeLine := fun _ _ h =>
  List.append_cancel_right h

/-- The listing of the whole network. -/
theorem handleWho_all (h : Hub) (sessionId : Text) (defaultChannel : Int32) :
    handleWho h sessionId defaultChannel ['*'] =
      "Users on the network:".toList ::
        if h.networkUsers = [] then ["  (nobody)".toList] else h.networkUsers.map formatUser := by
  have htrim : trim ['*'] = ['*'] := by decide
  simp only [handleWho, htrim]
  rcases h.networkUsers with _ | ⟨u, users⟩
  · rfl
  · simp

end RfUserSession

namespace WebChat

/-- A row of the table: what stands before the channel number, the number, and what follows. -/
theorem renderRow_eq (me : Text) (u : NetworkUser) :
    ∃ before after, ∀ ρ : Equiv.Perm Int32,
      renderRow me (Hub.renumberUser ρ u) =
        before ++ (decimal (ρ u.channel).toInt ++ '<' :: after) := by
  refine ⟨"<tr><td><b>".toList ++ htmlEncode u.name ++ "</b>".toList ++
    htmlEncode (if Callsigns.equal u.name me then " (you)".toList else []) ++
      "</td><td>".toList ++ htmlEncode u.host ++ "</td><td>".toList,
    "/td><td class=\"dim\">".toList ++ htmlEncode (if u.isAway then "away".toList else []) ++
      "</td></tr>".toList, fun ρ => ?_⟩
  have hname : (Hub.renumberUser ρ u).name = u.name := rfl
  have hhost : (Hub.renumberUser ρ u).host = u.host := rfl
  have haway : (Hub.renumberUser ρ u).isAway = u.isAway := rfl
  have hchannel : (Hub.renumberUser ρ u).channel = ρ u.channel := rfl
  unfold renderRow
  rw [hname, hhost, haway, hchannel]

/-- No number has an angle bracket, so that one ends it. -/
theorem decimal_of_append_eq {m n : ℤ} {after after' : Text}
    (h : decimal m ++ '<' :: after = decimal n ++ '<' :: after') : decimal m = decimal n := by
  have hnumber : ∀ (n : ℤ) (after : Text),
      (decimal n ++ '<' :: after).takeWhile (· ≠ '<') = decimal n := by
    intro n after
    rw [List.takeWhile_append_of_pos, List.takeWhile_cons_of_neg (by simp), List.append_nil]
    intro c hc
    rw [decide_eq_true_eq]
    rintro rfl
    rcases mem_decimal hc with hsign | ⟨d, hd, hdigit⟩
    · exact absurd hsign (by decide)
    · interval_cases d <;> exact absurd hdigit (by decide)
  rw [← hnumber m after, h, hnumber]

/-- **The rows of the table give the channel numbers away.** The lengths of the rows may differ, so
they are read off one after another. -/
theorem flatMap_renderRow_renumberUser {ρ : Equiv.Perm Int32} {me : Text} {users : List NetworkUser}
    {after after' : Text}
    (h : (users.map (Hub.renumberUser ρ)).flatMap (renderRow me) ++ after =
      users.flatMap (renderRow me) ++ after') :
    ∀ u ∈ users, ρ u.channel = u.channel := by
  induction users with
  | nil => exact fun u hu => absurd hu List.not_mem_nil
  | cons u users ih =>
    obtain ⟨before, behind, hrow⟩ := renderRow_eq me u
    have hsame := hrow (Equiv.refl Int32)
    rw [List.map_cons, List.flatMap_cons, List.flatMap_cons, hrow ρ,
      show renderRow me u = _ from hsame] at h
    simp only [List.append_assoc, List.cons_append] at h
    have hnumber := List.append_cancel_left h
    have hchannel : ρ u.channel = u.channel :=
      Int32.toInt_inj.mp (decimal_injective (decimal_of_append_eq hnumber))
    rw [hchannel] at hnumber
    have hrest := List.append_cancel_left (List.cons_inj_right _ |>.mp
      (List.append_cancel_left hnumber))
    exact List.forall_mem_cons.mpr ⟨hchannel, ih hrest⟩

end WebChat

namespace Hub

section Listings

variable {h : Hub} {ρ : Equiv.Perm Int32}

theorem users_renumber :
    (h.renumber ρ).users.records = h.users.records.map (renumberUser ρ) := rfl

theorem channels_renumber :
    (h.renumber ρ).channels.records = h.channels.records.map fun p => (ρ p.1, p.2) := rfl

/-- The users keep their order. -/
theorem networkUsers_renumber :
    (h.renumber ρ).networkUsers = h.networkUsers.map (renumberUser ρ) :=
  (List.map_mergeSort (r := userLE) (s := userLE) (f := renumberUser ρ) fun _ _ _ _ => rfl).symm

theorem mem_networkUsers {u : NetworkUser} : u ∈ h.networkUsers ↔ u ∈ h.users.records :=
  List.mem_mergeSort

/-- Users whose channels keep their numbers are not changed. -/
theorem map_renumberUser {users : List NetworkUser} (hfix : ∀ u ∈ users, ρ u.channel = u.channel) :
    users.map (renumberUser ρ) = users := by
  refine (List.map_congr_left fun u hu => ?_).trans (List.map_id users)
  rw [renumberUser, hfix u hu, id]

/-- **`who *` is the same iff no user is on a channel whose number differs.** Whoever asks can so
tell the number of a secret channel that has a user. -/
theorem whoOutput_renumber_iff (sessionId : Text) :
    (∀ defaultChannel pageLength responses,
        RfUserSession.whoOutput h sessionId defaultChannel pageLength ['*'] responses =
          RfUserSession.whoOutput (h.renumber ρ) sessionId defaultChannel pageLength ['*']
            responses) ↔
      ∀ u ∈ h.users.records, ρ u.channel = u.channel := by
  constructor
  · intro hsame u hu
    have hlines := hsame 0 0 []
    rw [RfUserSession.whoOutput, RfUserSession.whoOutput, RfUserSession.writePaged_zero,
      RfUserSession.writePaged_zero, (List.map_injective_iff.mpr
        RfUserSession.writeLine_injective).eq_iff, RfUserSession.handleWho_all,
      RfUserSession.handleWho_all, networkUsers_renumber, List.cons_inj_right,
      if_neg (List.ne_nil_of_mem (mem_networkUsers.mpr hu)), if_neg (by
        simpa using List.ne_nil_of_mem (mem_networkUsers.mpr hu)), List.map_map] at hlines
    exact (RfUserSession.formatUser_renumberUser ρ u).mp
      (List.map_inj_left.mp hlines u (mem_networkUsers.mpr hu)).symm
  · intro hfix defaultChannel pageLength responses
    rw [RfUserSession.whoOutput, RfUserSession.whoOutput, RfUserSession.handleWho_all,
      RfUserSession.handleWho_all, networkUsers_renumber,
      map_renumberUser fun u hu => hfix u (mem_networkUsers.mp hu)]

/-- **The table of the web page is the same iff no user is on a channel whose number differs.** The
page shows the whole table, whoever looks at it. -/
theorem renderNetwork_renumber_iff (me : Text) :
    WebChat.renderNetwork h.networkUsers me =
        WebChat.renderNetwork (h.renumber ρ).networkUsers me ↔
      ∀ u ∈ h.users.records, ρ u.channel = u.channel := by
  rw [networkUsers_renumber]
  constructor
  · intro hsame u hu
    have hne : h.networkUsers.length ≠ 0 :=
      List.length_pos_of_mem (mem_networkUsers.mpr hu) |>.ne'
    rw [WebChat.renderNetwork, WebChat.renderNetwork, if_neg hne, List.length_map, if_neg hne,
      List.append_assoc, List.append_assoc, List.append_cancel_left_eq] at hsame
    exact WebChat.flatMap_renderRow_renumberUser hsame.symm u (mem_networkUsers.mpr hu)
  · intro hfix
    rw [map_renumberUser fun u hu => hfix u (mem_networkUsers.mp hu)]

theorem get?_channels_renumber (c : Int32) :
    (h.renumber ρ).channels.get? (ρ c) = h.channels.get? c := by
  rw [Table.Dict.get?, renumber, Table.find?_rename, Option.map_map, Table.Dict.get?]
  rfl

theorem modesOf_renumber (c : Int32) : (h.renumber ρ).modesOf (ρ c) = h.modesOf c := by
  rw [modesOf, get?_channels_renumber, modesOf]

/-- A channel that keeps its number is not changed. -/
theorem getChannel_renumber {c : Int32} (hc : ρ c = c) :
    (h.renumber ρ).getChannel c = h.getChannel c := by
  have hstate : (h.renumber ρ).channels.get? c = h.channels.get? c := by
    conv_lhs => rw [← hc]
    exact get?_channels_renumber c
  -- those on the channel have its number before and after
  have husers : (h.renumber ρ).users.records.filter (fun u => u.channel = c) =
      h.users.records.filter fun u => u.channel = c := by
    have hiff : ∀ u : NetworkUser, ρ u.channel = c ↔ u.channel = c := fun u =>
      ⟨fun h => ρ.injective (h.trans hc.symm), fun h => h ▸ hc⟩
    have hcomp : (fun u : NetworkUser => decide (u.channel = c)) ∘ renumberUser ρ =
        fun u => decide (u.channel = c) :=
      funext fun u => decide_eq_decide.mpr (hiff u)
    rw [users_renumber, List.filter_map, hcomp]
    refine map_renumberUser fun u hu => ?_
    rw [of_decide_eq_true (List.mem_filter.mp hu).2, hc]
  rw [getChannel, getChannel, hstate, husers]

theorem knownChannels_renumber : (h.renumber ρ).knownChannels = h.knownChannels.map ρ := by
  rw [knownChannels, knownChannels, ← List.dedup_map_of_injective ρ.injective, List.map_append,
    users_renumber, channels_renumber]
  simp only [List.map_map]
  rfl

/-- **`ListChannels` is the same** when only hidden channels are renumbered. It is the listing that
does what the modes are for. -/
theorem listChannelsOf_renumber
    (hhidden : ∀ c ∈ h.knownChannels, ρ c ≠ c → ChannelModes.isHidden (h.modesOf c) = true) :
    h.listChannelsOf false = (h.renumber ρ).listChannelsOf false := by
  have hfix : ∀ n ∈ h.knownChannels.filter fun n => !ChannelModes.isHidden (h.modesOf n),
      ρ n = n := by
    intro n hn
    obtain ⟨hknown, hshown⟩ := List.mem_filter.mp hn
    by_contra hne
    rw [hhidden n hknown hne] at hshown
    cases hshown
  have hcomp : (fun n => !ChannelModes.isHidden ((h.renumber ρ).modesOf n)) ∘ ρ =
      fun n => !ChannelModes.isHidden (h.modesOf n) :=
    funext fun n => by rw [Function.comp_apply, modesOf_renumber]
  have hnumbers : ((h.renumber ρ).knownChannels.filter fun n =>
      !ChannelModes.isHidden ((h.renumber ρ).modesOf n)) =
        h.knownChannels.filter fun n => !ChannelModes.isHidden (h.modesOf n) := by
    rw [knownChannels_renumber, List.filter_map, hcomp]
    exact (List.map_congr_left hfix).trans (List.map_id _)
  simp only [listChannelsOf, Bool.false_or]
  rw [hnumbers]
  refine List.map_congr_left fun n hn => (getChannel_renumber (hfix n ?_)).symm
  exact List.mem_mergeSort.mp hn

/-- **The listings are the same iff no user is on a channel whose number differs.** Two states that
differ in hidden numbers only are told apart by two of the three listings. -/
theorem sameListings_iff {viewer : LocalSession} (hd : Disguises ρ h viewer) :
    SameListings h (h.renumber ρ) viewer ↔ ∀ u ∈ h.users.records, ρ u.channel = u.channel := by
  constructor
  · intro hsame
    exact (whoOutput_renumber_iff viewer.id).mp hsame.who
  · intro hfix
    exact ⟨(whoOutput_renumber_iff viewer.id).mpr hfix,
      (renderNetwork_renumber_iff viewer.callsign).mpr hfix, listChannelsOf_renumber hd.hidden⟩

/-- What is done on a hidden channel: a session looks on from channel 7. -/
def exampleHidden (hidden : List Input) : Hub :=
  Run.final step (fresh "NODE".toList)
    ((⟨0, zero_ticks_le⟩, .localJoin "web-1".toList "m0abc".toList 7) :: hidden)

/-- A user of another host comes to a secret channel. -/
def exampleSecret (channel : Int32) : Hub :=
  exampleHidden [(⟨0, zero_ticks_le⟩, .hostMode channel "+s".toList),
    (⟨0, zero_ticks_le⟩,
      .hostUser "gb7abc".toList "FAR".toList ⟨0, zero_ticks_le⟩ (-1) channel [] false)]

/-- The session that looks on. -/
def exampleViewer : LocalSession where
  id := "web-1".toList
  callsign := "M0ABC".toList
  channel := 7
  personal := []
  nickname := []
  away := []
  isOperator := false
  invitedChannels := ∅
  joinedAt := ⟨0, zero_ticks_le⟩

theorem disguises_exampleHidden :
    Disguises (Equiv.swap 100 200) (exampleHidden [(⟨0, zero_ticks_le⟩, .hostMode 100 "+s".toList)])
      exampleViewer where
  attached := by rw [Attached]; decide +kernel
  not_operator := rfl
  hidden := List.forall_iff_forall_mem.mp (by decide +kernel)
  absent := by decide +kernel

/-- A secret channel that nobody is on. -/
theorem sameListings_exampleHidden :
    SameListings (exampleHidden [(⟨0, zero_ticks_le⟩, .hostMode 100 "+s".toList)])
      ((exampleHidden [(⟨0, zero_ticks_le⟩, .hostMode 100 "+s".toList)]).renumber
        (Equiv.swap 100 200))
      exampleViewer :=
  (sameListings_iff disguises_exampleHidden).mpr (by decide +kernel)

/-- **The number of a secret channel is in the listing of whoever asks.** The listing of the
channels hides it, and that of the users does not. -/
theorem not_sameListings_exampleSecret :
    Disguises (Equiv.swap 100 200) (exampleSecret 100) exampleViewer ∧
      exampleSecret 200 = (exampleSecret 100).renumber (Equiv.swap 100 200) ∧
      ¬SameListings (exampleSecret 100) (exampleSecret 200) exampleViewer := by
  have hsame : exampleSecret 200 = (exampleSecret 100).renumber (Equiv.swap 100 200) := by
    decide +kernel
  refine ⟨⟨by rw [Attached]; decide +kernel, rfl,
    List.forall_iff_forall_mem.mp (by decide +kernel), by decide +kernel⟩, hsame,
    fun hlistings => ?_⟩
  rw [hsame] at hlistings
  have hfix := (whoOutput_renumber_iff exampleViewer.id).mp hlistings.who
  exact absurd hfix (by decide +kernel)

end Listings

end Hub

end Convers
