import Convers.Host.WebChat
import Convers.Lib.Markup

/-!
# What users write on a page

Anybody who talks on a channel writes on the pages of others, and so does who sets a topic or an
away text, here or on another host. Every such text is encoded, and a browser reads it as it was
written (`Convers.WebChat.read_htmlEncode`). So two pages that differ only in what was written have
the same markup, and what was written is shown (`Convers.WebChat.inert_channelPage`,
`Convers.WebChat.inert_whoPage`).

The prefix of the paths is not encoded: it is what the gateway says, and has no quotes.
-/

namespace Convers

namespace WebChat

open Markup

/-! ### What a browser reads -/

/-- The characters that a reference is to. -/
def referenced (name : Text) : Text :=
  if name = "lt".toList then ['<']
  else if name = "gt".toList then ['>']
  else if name = "quot".toList then ['"']
  else if name = "amp".toList then ['&']
  else if name.head? = some '#' then [Char.ofNat (Nat.ofDigitChars 10 name.tail 0)]
  else '&' :: name ++ [';']

/-- No character of a number has a meaning on a page. -/
theorem plain_of_mem_decimal {n : ℤ} {c : Char} (h : c ∈ decimal n) :
    c ≠ '<' ∧ c ≠ '&' ∧ c ≠ ';' ∧ c ≠ '"' := by
  rcases mem_decimal h with rfl | ⟨d, hd, rfl⟩
  · decide
  · interval_cases d <;> decide

/-- A reference by number. -/
theorem referenced_number (n : ℕ) : referenced ('#' :: decimal n) = [Char.ofNat n] := by
  have hnumber : Nat.ofDigitChars 10 (decimal n) 0 = n := by
    rw [decimal, if_neg (by omega), Int.natAbs_natCast]
    exact Nat.ofDigitChars_ten_toDigits
  rw [referenced, if_neg (by simp), if_neg (by simp), if_neg (by simp), if_neg (by simp),
    if_pos List.head?_cons, List.tail_cons, hnumber]

/-- **A character that is encoded** is read as the character. There are five characters to look at,
and any other is itself. -/
theorem read_htmlEncodeChar (c : Char) :
    read referenced .text (htmlEncodeChar c) = (.text, [.shown c]) := by
  by_cases hnamed : c ∈ ['<', '>', '"', '\'', '&']
  · simp only [List.mem_cons, List.not_mem_nil, or_false] at hnamed
    rcases hnamed with rfl | rfl | rfl | rfl | rfl <;> decide
  · simp only [List.mem_cons, List.not_mem_nil, or_false, not_or] at hnamed
    obtain ⟨hlt, hgt, hquot, hapos, hamp⟩ := hnamed
    rw [htmlEncodeChar, if_neg hlt, if_neg hgt, if_neg hquot, if_neg hapos, if_neg hamp]
    split
    · -- a number stands for the character with that number
      have hsemicolon : ';' ∉ '#' :: decimal c.toNat := by
        rw [List.mem_cons, not_or]
        exact ⟨by decide, fun hmem => (plain_of_mem_decimal hmem).2.2.1 rfl⟩
      have hread : read referenced (.reference []) ('#' :: decimal c.toNat ++ [';']) = _ :=
        read_reference hsemicolon
      rw [List.nil_append, referenced_number, Char.ofNat_toNat] at hread
      exact hread
    · rw [read_cons, next, if_neg hlt, if_neg hamp]
      rfl

/-- **A text that is encoded** is read as the text. No text so ends an element, or opens one. -/
theorem read_htmlEncode (t : Text) :
    read referenced .text (htmlEncode t) = (.text, t.map .shown) :=
  read_flatMap read_htmlEncodeChar t

/-- A number is read as it is. -/
theorem read_decimal (n : ℤ) :
    read referenced .text (decimal n) = (.text, (decimal n).map .shown) := by
  refine read_of_plain fun c hc => ?_
  obtain ⟨hlt, hamp, -, -⟩ := plain_of_mem_decimal hc
  exact ⟨hlt, hamp⟩

/-! ### Pages that differ in what was written -/

/-- Two pieces of a page that differ in their text only. -/
abbrev Alike (x y : Text) : Prop := Same referenced .text .text x y

theorem alike_htmlEncode (s t : Text) : Alike (htmlEncode s) (htmlEncode t) :=
  .of_read (read_htmlEncode s) (read_htmlEncode t)

theorem alike_decimal (m n : ℤ) : Alike (decimal m) (decimal n) :=
  .of_read (read_decimal m) (read_decimal n)

/-- A piece that is on both or on none. -/
theorem alike_ite {b b' : Bool} (h : b = b') {x : Text}
    (hx : (read referenced .text x).1 = .text) :
    Alike (if b = true then x else []) (if b' = true then x else []) := by
  subst h
  split
  · exact .refl hx
  · exact .nil

/-- What a line shows is seen on the page. -/
theorem infix_shown_lines {l m : List Text} (h : List.Forall₂ Alike l m) {x : Text} (hx : x ∈ l)
    {t : Text} (ht : t <:+: shown referenced .text x) :
    t <:+: shown referenced .text (lines l) := by
  have hplace : ∀ y ∈ l, (read referenced .text y).1 = .text := by
    intro y hy
    obtain ⟨i, hi, rfl⟩ := List.mem_iff_getElem.mp hy
    exact (h.get hi (h.length_eq ▸ hi)).left
  exact infix_shown_intercalate (by decide) hplace hx ht

theorem alike_lines {l m : List Text} (h : List.Forall₂ Alike l m) : Alike (lines l) (lines m) :=
  .intercalate (by decide) h

/-- Two users whom a page shows alike. -/
structure AlikeUser (me me' : Text) (u u' : NetworkUser) : Prop where
  isMe : Callsigns.equal u.name me = Callsigns.equal u'.name me'
  isAway : u.isAway = u'.isAway
  personal : u.personal.length = 0 ↔ u'.personal.length = 0

/-- Two messages that a page shows alike. -/
structure AlikeEntry (e e' : ChatLogRow) : Prop where
  kind : e.kind = .presence ↔ e'.kind = .presence
  origin : e.origin = e'.origin

/-- **Two views that differ in what was written**: in the callsigns, the names and the texts of the
users, the topic and who set it, and the modes. -/
structure ChannelView.AlikeView (v w : ChannelView) : Prop where
  style : v.options.style = w.options.style
  pathPrefix : v.pathPrefix = w.pathPrefix
  channel : v.channel = w.channel
  present : List.Forall₂ (AlikeUser v.call w.call) v.present w.present
  topic : v.topic.length = 0 ↔ w.topic.length = 0
  topicBy : v.topicBy.length = 0 ↔ w.topicBy.length = 0
  isOperator : v.isOperator = w.isOperator
  operResult : v.operResult = w.operResult

/-- A message. -/
theorem alike_renderEntry {e e' : ChatLogRow} (h : AlikeEntry e e') :
    Alike (renderEntry e) (renderEntry e') := by
  rw [renderEntry, renderEntry, h.origin]
  by_cases hkind : e.kind = .presence
  · rw [if_pos hkind, if_pos (h.kind.mp hkind)]
    exact ((((((Same.refl (by decide)).append (alike_htmlEncode _ _)).append
      (.refl (by decide))).append (alike_htmlEncode _ _)).append (.refl (by decide))).append
        (alike_htmlEncode _ _)).append (.refl (by decide))
  · rw [if_neg hkind, if_neg fun hkind' => hkind (h.kind.mpr hkind')]
    -- the origin is in a value, and has no quotes in either case
    cases e'.origin with
    | ofLocal | network =>
      exact ((((((((Same.refl (by decide)).append (alike_htmlEncode _ _)).append
        (.refl (q := .quoted '"') (by decide))).append
          (.refl (q := .quoted '"') (by decide))).append (.refl (by decide))).append
            (alike_htmlEncode _ _)).append (.refl (by decide))).append
              (alike_htmlEncode _ _)).append (.refl (by decide))

/-- The messages. -/
theorem alike_renderScrollback {log log' : List ChatLogRow}
    (h : List.Forall₂ AlikeEntry log log') :
    Alike (renderScrollback log) (renderScrollback log') := by
  rw [renderScrollback, renderScrollback, h.length_eq]
  split
  · exact .refl (by decide)
  · have hentries := Same.flatMap (List.rel_reverse (h.imp fun _ _ => alike_renderEntry))
    exact ((Same.refl (by decide)).append hentries).append (.refl (by decide))

/-- Somebody who is present. -/
theorem alike_renderUser {me me' : Text} {u u' : NetworkUser} (h : AlikeUser me me' u u') :
    Alike (renderUser me u) (renderUser me' u') := by
  have hpersonal : Alike
      (if u.personal.length = 0 then [] else
        " <span class=\"dim\">— ".toList ++ htmlEncode u.personal ++ "</span>".toList)
      (if u'.personal.length = 0 then [] else
        " <span class=\"dim\">— ".toList ++ htmlEncode u'.personal ++ "</span>".toList) := by
    by_cases hnone : u.personal.length = 0
    · rw [if_pos hnone, if_pos (h.personal.mp hnone)]
      exact .nil
    · rw [if_neg hnone, if_neg fun hnone' => hnone (h.personal.mpr hnone')]
      exact ((Same.refl (by decide)).append (alike_htmlEncode _ _)).append (.refl (by decide))
  exact ((((((Same.refl (by decide)).append (alike_htmlEncode _ _)).append
    (.refl (by decide))).append (alike_ite h.isMe (by decide))).append
      (alike_ite h.isAway (by decide))).append hpersonal).append (.refl (by decide))

/-- Who is present. -/
theorem alike_renderPresent {me me' : Text} {users users' : List NetworkUser}
    (h : List.Forall₂ (AlikeUser me me') users users') :
    Alike (renderPresent users me) (renderPresent users' me') := by
  rw [renderPresent, renderPresent, h.length_eq]
  split
  · exact .refl (by decide)
  · have husers := Same.flatMap (h.imp fun _ _ => alike_renderUser)
    exact ((Same.refl (by decide)).append husers).append (.refl (by decide))

/-- A user of the network. -/
theorem alike_renderRow (me me' : Text) (u u' : NetworkUser) :
    Alike (renderRow me u) (renderRow me' u') := by
  have hrest (s t : Text) : Alike
      ('<' :: ("/td><td class=\"dim\">".toList ++ htmlEncode s ++ "</td></tr>".toList))
      ('<' :: ("/td><td class=\"dim\">".toList ++ htmlEncode t ++ "</td></tr>".toList)) :=
    ((Same.refl (x := "</td><td class=\"dim\">".toList) (by decide)).append
      (alike_htmlEncode s t)).append (.refl (by decide))
  exact (((((((Same.refl (by decide)).append (alike_htmlEncode _ _)).append
    (.refl (by decide))).append (alike_htmlEncode _ _)).append (.refl (by decide))).append
      (alike_htmlEncode _ _)).append (.refl (by decide))).append
        ((alike_decimal _ _).append (hrest _ _))

/-- The network. -/
theorem alike_renderNetwork {users users' : List NetworkUser} (h : users.length = users'.length)
    (me me' : Text) : Alike (renderNetwork users me) (renderNetwork users' me') := by
  have hrows : List.Forall₂ (fun u u' => Alike (renderRow me u) (renderRow me' u')) users users' :=
    List.forall₂_iff_get.mpr ⟨h, fun _ _ _ => alike_renderRow me me' _ _⟩
  rw [renderNetwork, renderNetwork, h]
  split
  · exact .refl (by decide)
  · exact ((Same.refl (by decide)).append (.flatMap hrows)).append (.refl (by decide))

/-! ### The pages -/

/-- A path under a prefix without quotes. -/
theorem quote_notMem_path {pathPrefix : Text} (hquote : '"' ∉ pathPrefix) {t : Text}
    (ht : '"' ∉ t) : '"' ∉ pathPrefix ++ t := by
  rw [List.mem_append, not_or]
  exact ⟨hquote, ht⟩

/-- A piece with a path in a value. -/
theorem alike_link {pathPrefix : Text} (hquote : '"' ∉ pathPrefix) {before path after : Text}
    (hbefore : (read referenced .text before).1 = .quoted '"') (hpath : '"' ∉ path)
    (hafter : (read referenced (.quoted '"') after).1 = .text) :
    Alike (before ++ (pathPrefix ++ path) ++ after) (before ++ (pathPrefix ++ path) ++ after) :=
  ((Same.refl hbefore).append (.quoted (quote_notMem_path hquote hpath))).append (.refl hafter)

/-- **The lines of two pages** are alike, when their bodies are. The head and the foot of a page are
the same for both. -/
theorem exists_lines_page {o o' : Options} (hstyle : o.style = o'.style)
    (hclosed : (read referenced .text o.style).1 = .text) {pathPrefix : Text}
    (hquote : '"' ∉ pathPrefix) (call call' title title' : Text) {body body' : Text}
    (hbody : Alike body body') (autoRefresh : Bool) :
    ∃ l m, page o pathPrefix call title body autoRefresh = lines l ∧
      page o' pathPrefix call' title' body' autoRefresh = lines m ∧
        List.Forall₂ Alike l m ∧ body ∈ l := by
  have hrefresh : Alike
      (if autoRefresh = true then "<meta http-equiv=\"refresh\" content=\"15\">".toList else [])
      (if autoRefresh = true then "<meta http-equiv=\"refresh\" content=\"15\">".toList else []) :=
    alike_ite rfl (by decide)
  have htitle : Alike
      ("<title>".toList ++ htmlEncode o.nodeCallsign ++ " convers — ".toList ++ htmlEncode title ++
        "</title>".toList)
      ("<title>".toList ++ htmlEncode o'.nodeCallsign ++ " convers — ".toList ++
        htmlEncode title' ++ "</title>".toList) :=
    ((((Same.refl (by decide)).append (alike_htmlEncode _ _)).append (.refl (by decide))).append
      (alike_htmlEncode _ _)).append (.refl (by decide))
  have hstyle' : Alike o.style o'.style := hstyle ▸ .refl hclosed
  refine ⟨_, _, rfl, rfl, (.cons (.refl (by decide)) <| .cons (.refl (by decide)) <| .cons ?_ <|
    .cons (.refl (by decide)) <| .cons ?_ <| .cons ?_ <| .cons ?_ <| .cons hbody <|
    .cons (.refl (by decide)) <| .nil),
      List.mem_of_getElem? (i := 7) rfl⟩
  · exact ((htitle.append hrefresh).append hstyle').append (.refl (by decide))
  · exact ((Same.refl (by decide)).append (alike_htmlEncode _ _)).append (.refl (by decide))
  · have hroot := quote_notMem_path hquote (t := "/".toList) (by decide)
    have hwho := quote_notMem_path hquote (t := "/who".toList) (by decide)
    exact ((((Same.refl (by decide)).append (.quoted hroot)).append
      (.refl (q := .quoted '"') (by decide))).append (.quoted hwho)).append (.refl (by decide))
  · exact ((Same.refl (by decide)).append (alike_htmlEncode _ _)).append (.refl (by decide))

/-- Two pages are alike, when their bodies are. -/
theorem alike_page {o o' : Options} (hstyle : o.style = o'.style)
    (hclosed : (read referenced .text o.style).1 = .text) {pathPrefix : Text}
    (hquote : '"' ∉ pathPrefix) (call call' title title' : Text) {body body' : Text}
    (hbody : Alike body body') (autoRefresh : Bool) :
    Alike (page o pathPrefix call title body autoRefresh)
      (page o' pathPrefix call' title' body' autoRefresh) := by
  obtain ⟨l, m, hl, hm, hlines, -⟩ :=
    exists_lines_page hstyle hclosed hquote call call' title title' hbody autoRefresh
  rw [hl, hm]
  exact alike_lines hlines

/-- What the body shows is seen on the page. -/
theorem infix_page {o : Options} (hclosed : (read referenced .text o.style).1 = .text)
    {pathPrefix : Text} (hquote : '"' ∉ pathPrefix) (call title : Text) {l m : List Text}
    (hbody : List.Forall₂ Alike l m) (autoRefresh : Bool) {x : Text} (hx : x ∈ l) {t : Text}
    (ht : t <:+: shown referenced .text x) :
    t <:+: shown referenced .text (page o pathPrefix call title (lines l) autoRefresh) := by
  obtain ⟨l', m', hl, -, hlines, hmem⟩ :=
    exists_lines_page (o := o) rfl hclosed hquote call call title title (alike_lines hbody)
      autoRefresh
  rw [hl]
  exact infix_shown_lines hlines hmem (infix_shown_lines hbody hx ht)

namespace ChannelView

variable {v w : ChannelView}

/-- The topic. -/
theorem AlikeView.topicLine (h : v.AlikeView w) : Alike v.topicLine w.topicLine := by
  rw [ChannelView.topicLine, ChannelView.topicLine]
  by_cases hnone : v.topic.length = 0
  · rw [if_pos hnone, if_pos (h.topic.mp hnone)]
    exact .refl (by decide)
  · rw [if_neg hnone, if_neg fun hnone' => hnone (h.topic.mpr hnone')]
    refine (alike_htmlEncode _ _).append ?_
    by_cases hnobody : v.topicBy.length = 0
    · rw [if_pos hnobody, if_pos (h.topicBy.mp hnobody)]
      exact .nil
    · rw [if_neg hnobody, if_neg fun hnobody' => hnobody (h.topicBy.mpr hnobody')]
      exact ((Same.refl (by decide)).append (alike_htmlEncode _ _)).append (.refl (by decide))

/-- The modes. -/
theorem alike_modeLine (v w : ChannelView) : Alike v.modeLine w.modeLine :=
  (((Same.refl (by decide)).append (alike_htmlEncode _ _)).append (.refl (by decide))).append
    (alike_htmlEncode _ _)

/-- What came of a login as an operator. -/
theorem AlikeView.operFeedback (h : v.AlikeView w) : Alike v.operFeedback w.operFeedback := by
  rw [ChannelView.operFeedback, ChannelView.operFeedback, h.operResult]
  split
  · split
    · exact .refl (by decide)
    · split
      · exact .refl (by decide)
      · exact .nil
  · exact .nil

/-- The form for an operator, or to become one. -/
theorem AlikeView.control (h : v.AlikeView w) (hquote : '"' ∉ v.pathPrefix) :
    Alike v.control w.control := by
  rw [ChannelView.control, ChannelView.control, ← h.isOperator, ← h.pathPrefix]
  split
  · exact alike_lines (.cons (.refl (by decide)) (.cons
      (alike_link hquote (by decide) (by decide) (by decide)) (.cons (.refl (by decide))
        (.cons (.refl (by decide)) .nil))))
  · exact alike_lines (.cons (alike_link hquote (by decide) (by decide) (by decide)) (.cons
      (.refl (by decide)) (.cons (.refl (by decide)) .nil)))

/-- What is above the messages, with the topic. -/
theorem AlikeView.exists_lines_above (h : v.AlikeView w) (hquote : '"' ∉ v.pathPrefix) :
    ∃ l m, v.above = lines l ∧ w.above = lines m ∧ List.Forall₂ Alike l m ∧
      "<p class=\"topic\">Topic: ".toList ++ v.topicLine ++ "</p>".toList ∈ l := by
  rw [ChannelView.above, ChannelView.above, ← h.pathPrefix, ← h.channel]
  have hchannel : '"' ∉ decimal v.channel.toInt := fun hmem =>
    (plain_of_mem_decimal hmem).2.2.2 rfl
  have hinput {before after : Text} (hbefore : (read referenced .text before).1 = .quoted '"')
      (hafter : (read referenced (.quoted '"') after).1 = .text) :
      Alike (before ++ decimal v.channel.toInt ++ after)
        (before ++ decimal v.channel.toInt ++ after) :=
    ((Same.refl hbefore).append (.quoted hchannel)).append (.refl hafter)
  have hnumber {before after : Text} (hbefore : (read referenced .text before).1 = .text)
      (hafter : (read referenced .text after).1 = .text) :
      Alike (before ++ decimal v.channel.toInt ++ after)
        (before ++ decimal v.channel.toInt ++ after) :=
    ((Same.refl hbefore).append (alike_decimal _ _)).append (.refl hafter)
  refine ⟨_, _, rfl, rfl, (.cons (.refl (by decide)) <|
    .cons (alike_link hquote (by decide) (by decide) (by decide)) <|
    .cons (hinput (by decide) (by decide)) <| .cons (.refl (by decide)) <|
    .cons (hnumber (by decide) (by decide)) <| .cons (.refl (by decide)) <|
    .cons (.refl (by decide)) <| .cons (.refl (by decide)) <|
    .cons (hnumber (by decide) (by decide)) <| .cons ?_ <| .cons ?_ <|
    .cons (alike_link hquote (by decide) (by decide) (by decide)) <| .cons (.refl (by decide)) <|
    .cons (.refl (by decide)) <| .nil),
      List.mem_of_getElem? (i := 9) rfl⟩
  · exact ((Same.refl (by decide)).append h.topicLine).append (.refl (by decide))
  · exact ((Same.refl (by decide)).append (alike_modeLine v w)).append (.refl (by decide))

/-- What is below the messages, with who is present. -/
theorem AlikeView.exists_lines_below (h : v.AlikeView w) (hquote : '"' ∉ v.pathPrefix) :
    ∃ l m, v.below = lines l ∧ w.below = lines m ∧ List.Forall₂ Alike l m ∧
      renderPresent v.present v.call ∈ l := by
  rw [ChannelView.below, ChannelView.below, ← h.pathPrefix]
  refine ⟨_, _, rfl, rfl, (
    .cons (alike_link hquote (by decide) (by decide) (by decide)) <| .cons (.refl (by decide)) <|
    .cons (.refl (by decide)) <| .cons (.refl (by decide)) <| .cons (.refl (by decide)) <|
    .cons ?_ <| .cons (alike_renderPresent h.present) <| .cons (.refl (by decide)) <|
    .cons h.operFeedback <| .cons (alike_link hquote (by decide) (by decide) (by decide)) <|
    .cons (.refl (by decide)) <| .cons (.refl (by decide)) <| .cons (h.control hquote) <|
    .cons (.refl (by decide)) <| .cons (alike_link hquote (by decide) (by decide) (by decide)) <|
    .cons (.refl (by decide)) <| .cons (.refl (by decide)) <| .cons (.refl (by decide)) <|
    .cons (.refl (by decide)) <| .cons (.refl (by decide)) <| .nil),
      List.mem_of_getElem? (i := 6) rfl⟩
  exact ((Same.refl (by decide)).append (alike_decimal _ _)).append (.refl (by decide))

end ChannelView

/-- The body of a page of a channel. -/
def channelBody (v : ChannelView) (log : List ChatLogRow) : List Text :=
  [v.above, renderScrollback log, v.below]

/-- The parts of the page of a channel are alike. -/
theorem ChannelView.AlikeView.channelBody {v w : ChannelView} (h : v.AlikeView w)
    (hquote : '"' ∉ v.pathPrefix) {log log' : List ChatLogRow}
    (hlog : List.Forall₂ AlikeEntry log log') :
    List.Forall₂ Alike (channelBody v log) (WebChat.channelBody w log') := by
  obtain ⟨l, m, hv, hw, habove, -⟩ := h.exists_lines_above hquote
  obtain ⟨l', m', hv', hw', hbelow, -⟩ := h.exists_lines_below hquote
  rw [WebChat.channelBody, WebChat.channelBody, hv, hw, hv', hw']
  exact .cons (alike_lines habove) (.cons (alike_renderScrollback hlog) (.cons
    (alike_lines hbelow) .nil))

/-! ### What a page shows -/

/-- A message, as it is shown. -/
def told (e : ChatLogRow) : Text :=
  clock e.utc ++ ' ' ::
    (e.fromCall ++ (if e.kind = .presence then [' '] else ": ".toList) ++ e.text)

/-- A user who is present, as `me` is shown him. -/
def toldUser (me : Text) (u : NetworkUser) : Text :=
  u.name ++ (if Callsigns.equal u.name me then " (you)".toList else []) ++
    (if u.isAway then " (away)".toList else []) ++
      if u.personal.length = 0 then [] else " — ".toList ++ u.personal

/-- The topic, as it is shown. -/
def ChannelView.toldTopic (v : ChannelView) : Text :=
  v.topic ++ if v.topicBy.length = 0 then [] else " (set by ".toList ++ v.topicBy ++ [')']

/-- A text that is encoded is shown. -/
theorem shows_htmlEncode (t : Text) : Shows referenced .text .text (htmlEncode t) t :=
  .of_read (read_htmlEncode t)

/-- **A message is shown as it was said.** What was said cannot be told from the markup around it
otherwise. -/
theorem shows_renderEntry (e : ChatLogRow) :
    Shows referenced .text .text (renderEntry e) (told e) := by
  by_cases hkind : e.kind = .presence
  · have htold : told e =
        [] ++ clock e.utc ++ [' '] ++ e.fromCall ++ [' '] ++ e.text ++ [] := by
      simp [told, hkind]
    rw [htold, renderEntry, if_pos hkind]
    exact ((((((Shows.mk (by decide) (by decide)).append (shows_htmlEncode _)).append
      (.mk (by decide) (by decide))).append (shows_htmlEncode _)).append
        (.mk (by decide) (by decide))).append (shows_htmlEncode _)).append
          (.mk (by decide) (by decide))
  · have htold : told e =
        [] ++ clock e.utc ++ [' '] ++ [] ++ [] ++ e.fromCall ++ ": ".toList ++ e.text ++ [] := by
      simp [told, hkind]
    rw [htold, renderEntry, if_neg hkind]
    cases e.origin with
    | ofLocal | network =>
      exact ((((((((Shows.mk (by decide) (by decide)).append (shows_htmlEncode _)).append
        (.mk (q := .quoted '"') (by decide) (by decide))).append
          (.mk (q := .quoted '"') (by decide) (by decide))).append
            (.mk (by decide) (by decide))).append (shows_htmlEncode _)).append
              (.mk (by decide) (by decide))).append (shows_htmlEncode _)).append
                (.mk (by decide) (by decide))

/-- The messages are shown in their order. -/
theorem infix_renderScrollback (log : List ChatLogRow) :
    log.reverse.flatMap told <:+: shown referenced .text (renderScrollback log) := by
  have hopen : (read referenced .text "<div class=\"log\">".toList).1 = .text := by decide
  rw [renderScrollback]
  split
  · rename_i hnone
    rw [List.length_eq_zero_iff.mp hnone]
    exact List.nil_infix
  · refine infix_shown_left (infix_shown_right hopen ?_) _
    rw [(Shows.flatMap fun e _ => shows_renderEntry e).shown]

/-- **Who is present is shown as he is.** His texts come from another host, and are encoded as those
of our own users are. -/
theorem shows_renderUser (me : Text) (u : NetworkUser) :
    Shows referenced .text .text (renderUser me u) (toldUser me u) := by
  have hme : Shows referenced .text .text
      (if Callsigns.equal u.name me then " <span class=\"dim\">(you)</span>".toList else [])
      (if Callsigns.equal u.name me then " (you)".toList else []) := by
    split
    · exact .mk (by decide) (by decide)
    · exact .nil
  have haway : Shows referenced .text .text
      (if u.isAway then " <span class=\"away\">(away)</span>".toList else [])
      (if u.isAway then " (away)".toList else []) := by
    split
    · exact .mk (by decide) (by decide)
    · exact .nil
  have hpersonal : Shows referenced .text .text
      (if u.personal.length = 0 then [] else
        " <span class=\"dim\">— ".toList ++ htmlEncode u.personal ++ "</span>".toList)
      (if u.personal.length = 0 then [] else " — ".toList ++ u.personal ++ []) := by
    split
    · exact .nil
    · exact ((Shows.mk (by decide) (by decide)).append (shows_htmlEncode _)).append
        (.mk (by decide) (by decide))
  have htold : toldUser me u = [] ++ u.name ++ [] ++
      (if Callsigns.equal u.name me then " (you)".toList else []) ++
        (if u.isAway then " (away)".toList else []) ++
          (if u.personal.length = 0 then [] else " — ".toList ++ u.personal ++ []) ++ [] := by
    simp only [toldUser, List.nil_append, List.append_nil]
  rw [htold]
  exact ((((((Shows.mk (by decide) (by decide)).append (shows_htmlEncode _)).append
    (.mk (by decide) (by decide))).append hme).append haway).append hpersonal).append
      (.mk (by decide) (by decide))

/-- Everybody who is present is shown. -/
theorem infix_renderPresent (users : List NetworkUser) (me : Text) :
    users.flatMap (toldUser me) <:+: shown referenced .text (renderPresent users me) := by
  have hopen : (read referenced .text "<ul class=\"present\">".toList).1 = .text := by decide
  rw [renderPresent]
  split
  · rename_i hnone
    rw [List.length_eq_zero_iff.mp hnone]
    exact List.nil_infix
  · refine infix_shown_left (infix_shown_right hopen ?_) _
    rw [(Shows.flatMap fun u _ => shows_renderUser me u).shown]

/-- The topic is shown as it was set. -/
theorem ChannelView.infix_topicLine (v : ChannelView) (htopic : v.topic.length ≠ 0) :
    v.toldTopic <:+: shown referenced .text v.topicLine := by
  have hshows : Shows referenced .text .text v.topicLine v.toldTopic := by
    rw [ChannelView.topicLine, ChannelView.toldTopic, if_neg htopic]
    refine (shows_htmlEncode _).append ?_
    split
    · exact .nil
    · exact ((Shows.mk (by decide) (by decide)).append (shows_htmlEncode _)).append
        (.mk (by decide) (by decide))
  rw [hshows.shown]

/-! ### What was written is inert -/

theorem ChannelView.AlikeView.refl (v : ChannelView) : v.AlikeView v :=
  ⟨rfl, rfl, rfl, List.forall₂_same.mpr fun _ _ => ⟨rfl, rfl, Iff.rfl⟩, Iff.rfl, Iff.rfl, rfl, rfl⟩

/-- **What is written is text on the page of a channel**: a page that differs in what was written
only has the same markup; and the messages, the topic and the users are shown as they are. -/
theorem inert_channelPage {v : ChannelView}
    (hstyle : (read referenced .text v.options.style).1 = .text) (hquote : '"' ∉ v.pathPrefix)
    (log : List ChatLogRow) :
    (∀ w log', v.AlikeView w → List.Forall₂ AlikeEntry log log' →
      marks referenced .text (channelPage v log) = marks referenced .text (channelPage w log')) ∧
      log.reverse.flatMap told <:+: shown referenced .text (channelPage v log) ∧
        (v.topic.length ≠ 0 → v.toldTopic <:+: shown referenced .text (channelPage v log)) ∧
          v.present.flatMap (toldUser v.call) <:+: shown referenced .text (channelPage v log) := by
  have halike := ChannelView.AlikeView.refl v
  have hsame : List.Forall₂ AlikeEntry log log := List.forall₂_same.mpr fun _ _ => ⟨Iff.rfl, rfl⟩
  -- whatever a part of the body shows is seen on the page
  have hseen {x t : Text} (hx : x ∈ channelBody v log) (ht : t <:+: shown referenced .text x) :
      t <:+: shown referenced .text (channelPage v log) :=
    infix_page hstyle hquote _ _ (halike.channelBody hquote hsame) true hx ht
  refine ⟨fun w log' h hlog => ?_, hseen (by simp [channelBody]) (infix_renderScrollback log),
    fun htopic => ?_, ?_⟩
  · rw [channelPage, channelPage, ← h.pathPrefix]
    exact (alike_page h.style hstyle hquote _ _ _ _
      (alike_lines (h.channelBody hquote hlog)) true).marks
  · obtain ⟨l, m, hl, -, habove, hmem⟩ := halike.exists_lines_above hquote
    refine hseen (x := v.above) (by simp [channelBody]) ?_
    rw [hl]
    refine infix_shown_lines habove hmem (infix_shown_left ?_ _)
    exact infix_shown_right (by decide) (v.infix_topicLine htopic)
  · obtain ⟨l, m, hl, -, hbelow, hmem⟩ := halike.exists_lines_below hquote
    refine hseen (x := v.below) (by simp [channelBody]) ?_
    rw [hl]
    exact infix_shown_lines hbelow hmem (infix_renderPresent _ _)

/-- Somebody tries to write markup on a page. -/
def exampleEntry : ChatLogRow where
  kind := .channel
  channel := some 7
  fromCall := "M0ABC".toList
  toCall := none
  text := "</div><script>alert(1)</script>".toList
  origin := .network
  id := 1
  utc := 0

/-- A page of a channel. -/
def exampleView : ChannelView where
  options := ⟨"M0XYZ-4".toList, 0, 50, "<style>body{margin:0}</style>".toList⟩
  pathPrefix := "/convers".toList
  call := "M0XYZ".toList
  channel := 7
  present := []
  topic := "\"R&D\"".toList
  topicBy := "M0ABC".toList
  modes := ∅
  isOperator := false
  operResult := none

/-- A row with another text leaves the marks of this page alone, and a reader is shown what was
said. -/
theorem inert_exampleView :
    marks referenced .text (channelPage exampleView [exampleEntry]) =
        marks referenced .text
          (channelPage exampleView [{ exampleEntry with text := "hello".toList }]) ∧
      [exampleEntry].flatMap told <:+:
        shown referenced .text (channelPage exampleView [exampleEntry]) := by
  obtain ⟨hmarks, htold, -, -⟩ := inert_channelPage (v := exampleView) (by decide) (by decide)
    [exampleEntry]
  exact ⟨hmarks _ _ (.refl _) (.cons ⟨Iff.rfl, rfl⟩ .nil), htold⟩

/-- A user of the network, as `me` is shown him. -/
def toldRow (me : Text) (u : NetworkUser) : Text :=
  u.name ++ (if Callsigns.equal u.name me then " (you)".toList else []) ++ u.host ++
    decimal u.channel.toInt ++ if u.isAway then "away".toList else []

theorem shows_renderRow (me : Text) (u : NetworkUser) :
    Shows referenced .text .text (renderRow me u) (toldRow me u) := by
  have hrest (t : Text) : Shows referenced .text .text
      ('<' :: ("/td><td class=\"dim\">".toList ++ htmlEncode t ++ "</td></tr>".toList))
      ([] ++ t ++ []) :=
    ((Shows.mk (x := "</td><td class=\"dim\">".toList) (by decide) (by decide)).append
      (shows_htmlEncode t)).append (.mk (by decide) (by decide))
  have htold : toldRow me u = [] ++ u.name ++ [] ++
      (if Callsigns.equal u.name me then " (you)".toList else []) ++ [] ++ u.host ++ [] ++
        (decimal u.channel.toInt ++ ([] ++ (if u.isAway then "away".toList else []) ++ [])) := by
    simp only [toldRow, List.nil_append, List.append_nil, List.append_assoc]
  rw [htold]
  exact (((((((Shows.mk (by decide) (by decide)).append (shows_htmlEncode _)).append
    (.mk (by decide) (by decide))).append (shows_htmlEncode _)).append
      (.mk (by decide) (by decide))).append (shows_htmlEncode _)).append
        (.mk (by decide) (by decide))).append ((Shows.of_read (read_decimal _)).append (hrest _))

/-- The users of the network are shown. -/
theorem infix_renderNetwork (users : List NetworkUser) (me : Text) :
    users.flatMap (toldRow me) <:+: shown referenced .text (renderNetwork users me) := by
  rw [renderNetwork]
  split
  · rename_i hnone
    rw [List.length_eq_zero_iff.mp hnone]
    exact List.nil_infix
  · refine infix_shown_left (infix_shown_right (q := .text) (by decide) ?_) _
    rw [(Shows.flatMap fun u _ => shows_renderRow me u).shown]

/-- The lines of the page `who`, with who is present and who is on the network. -/
theorem exists_lines_whoPage (o : Options) (pathPrefix : Text) {call call' : Text}
    (channel channel' : Int32) {here here' network network' : List NetworkUser}
    (hhere : List.Forall₂ (AlikeUser call call') here here')
    (hnetwork : network.length = network'.length) :
    ∃ l m, whoPage o pathPrefix call channel here network =
        page o pathPrefix call "Who".toList (lines l) false ∧
      whoPage o pathPrefix call' channel' here' network' =
        page o pathPrefix call' "Who".toList (lines m) false ∧
      List.Forall₂ Alike l m ∧ renderPresent here call ∈ l ∧ renderNetwork network call ∈ l := by
  refine ⟨_, _, rfl, rfl, .cons (.refl (by decide)) (.cons ?_ (.cons (alike_renderPresent hhere)
    (.cons ?_ (.cons (alike_renderNetwork hnetwork _ _) .nil)))),
      List.mem_of_getElem? (i := 2) rfl, List.mem_of_getElem? (i := 4) rfl⟩
  · exact ((((Same.refl (by decide)).append (alike_decimal _ _)).append (.refl (by decide))).append
      (alike_decimal _ _)).append (.refl (by decide))
  · exact ((Same.refl (by decide)).append (alike_decimal _ _)).append (.refl (by decide))

/-- **What is written is text on the page `who`**, in the same way. -/
theorem inert_whoPage {o : Options} (hstyle : (read referenced .text o.style).1 = .text)
    {pathPrefix : Text} (hquote : '"' ∉ pathPrefix) (call : Text) (channel : Int32)
    (here network : List NetworkUser) :
    (∀ call' channel' here' network', List.Forall₂ (AlikeUser call call') here here' →
      network.length = network'.length →
        marks referenced .text (whoPage o pathPrefix call channel here network) =
          marks referenced .text (whoPage o pathPrefix call' channel' here' network')) ∧
      here.flatMap (toldUser call) <:+:
        shown referenced .text (whoPage o pathPrefix call channel here network) ∧
      network.flatMap (toldRow call) <:+:
        shown referenced .text (whoPage o pathPrefix call channel here network) := by
  obtain ⟨l, m, hl, -, hlines, hhere, hnetwork⟩ :=
    exists_lines_whoPage o pathPrefix channel channel
      (List.forall₂_same.mpr fun u _ => (⟨rfl, rfl, Iff.rfl⟩ : AlikeUser call call u u))
      (rfl : network.length = network.length)
  refine ⟨fun call' channel' here' network' hhere' hnetwork' => ?_, ?_, ?_⟩
  · obtain ⟨l', m', hl', hm', hlines', -⟩ :=
      exists_lines_whoPage o pathPrefix channel channel' hhere' hnetwork'
    rw [hl', hm']
    exact (alike_page rfl hstyle hquote _ _ _ _ (alike_lines hlines') false).marks
  · rw [hl]
    exact infix_page hstyle hquote _ _ hlines false hhere (infix_renderPresent here call)
  · rw [hl]
    exact infix_page hstyle hquote _ _ hlines false hnetwork (infix_renderNetwork network call)

end WebChat

end Convers
