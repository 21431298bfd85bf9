import Convers.Lib.Abbreviation
import Convers.Text

/-!
# The words for the commands, and the help on them

The two surfaces of the console have words of their own for the same verbs. On the plain one any
prefix of a verb will do that no other verb has (`Convers.ConsoleVerbs.resolve_eq_some`). On the
classic one every command has a shortest abbreviation, and the first row of a table is taken that
has the word: as no two rows with different verbs have a word in common, any row may be taken
(`Convers.ClassicCommands.resolveIn_eq_some`).
-/

namespace Convers

/-- `StartsWith` with `StringComparison.OrdinalIgnoreCase`. -/
def startsWithIgnoreCase (text start : Text) : Bool :=
  (toUpperInvariant start).isPrefixOf (toUpperInvariant text)

theorem startsWithIgnoreCase_iff {text start : Text} :
    startsWithIgnoreCase text start = true ↔ toUpperInvariant start <+: toUpperInvariant text :=
  List.isPrefixOf_iff_prefix

/-- A text starts with its own beginning. -/
theorem startsWithIgnoreCase_of_prefix {text start : Text} (h : start <+: text) :
    startsWithIgnoreCase text start = true :=
  startsWithIgnoreCase_iff.mpr (h.map toUpperChar)

/-! ### The plain surface -/

namespace ConsoleVerbs

/-- `All`. -/
def all : List Text :=
  ["join".toList, "say".toList, "who".toList, "msg".toList, "mode".toList, "topic".toList,
    "personal".toList, "away".toList, "oper".toList, "invite".toList, "leave".toList,
    "quit".toList, "help".toList]

/-- `Resolve`. -/
def resolve (input : Text) : Option Text :=
  if input = [] then none
  else Abbreviation.pick (startsWithIgnoreCase · input) (·.length = input.length) none all

/-- No verb begins another. -/
theorem eq_of_prefix {verb verb' : Text} (hverb : verb ∈ all) (hverb' : verb' ∈ all)
    (h : toUpperInvariant verb <+: toUpperInvariant verb') : verb' = verb := by
  have hall : ∀ v ∈ all, ∀ v' ∈ all,
      (toUpperInvariant v).isPrefixOf (toUpperInvariant v') = true → v' = v := by
    decide +kernel
  exact hall verb hverb verb' hverb' (List.isPrefixOf_iff_prefix.mpr h)

/-- **An abbreviation is any prefix of one verb alone.** A new verb could therefore take an
abbreviation away from an old one. -/
theorem resolve_eq_some {input verb : Text} : resolve input = some verb ↔
    input ≠ [] ∧ Abbreviation.Means (startsWithIgnoreCase · input) all verb := by
  rw [resolve]
  split
  · rename_i hnil
    exact iff_of_false (by simp) fun h => h.1 hnil
  · rename_i hne
    rw [and_iff_right hne]
    refine Abbreviation.pick_eq_some_iff (by decide) fun v hv hstarts hlength v' hv' hstarts' => ?_
    -- a verb that is written out begins no other
    have heq : toUpperInvariant input = toUpperInvariant v := by
      refine (startsWithIgnoreCase_iff.mp hstarts).eq_of_length ?_
      rw [toUpperInvariant, toUpperInvariant, List.length_map, List.length_map]
      exact (of_decide_eq_true hlength).symm
    exact eq_of_prefix hv hv' (heq ▸ startsWithIgnoreCase_iff.mp hstarts')

/-- A verb that is written out is meant. -/
theorem resolve_of_mem {verb : Text} (hverb : verb ∈ all) : resolve verb = some verb := by
  have hne : ∀ v ∈ all, v ≠ [] := by decide
  exact resolve_eq_some.mpr ⟨hne verb hverb, hverb,
    startsWithIgnoreCase_of_prefix (List.prefix_refl verb),
    fun v hv h => eq_of_prefix hverb hv (startsWithIgnoreCase_iff.mp h)⟩

end ConsoleVerbs

/-! ### The classic surface -/

namespace ClassicCommands

/-- `Entry`. -/
structure Entry where
  name : Text
  abbreviation : Text
  verb : Text
  deriving DecidableEq

/-- A row of the table. -/
def row (name shortest verb : String) : Entry := ⟨name.toList, shortest.toList, verb.toList⟩

/-- `Table`. -/
def table : List Entry :=
  [row "name" "n" "name", row "channel" "c" "join", row "join" "j" "join",
    row "personal" "pe" "personal", row "note" "no" "personal", row "away" "a" "away",
    row "msg" "m" "msg", row "send" "s" "msg", row "write" "wr" "msg", row "query" "que" "msg",
    row "topic" "to" "topic", row "mode" "mo" "mode", row "oper" "op" "oper",
    row "operator" "op" "oper", row "sysop" "sy" "oper", row "who" "wh" "who",
    row "users" "u" "who", row "online" "o" "who", row "invite" "i" "invite",
    row "leave" "le" "leave", row "quit" "qu" "quit", row "bye" "by" "quit",
    row "exit" "e" "quit", row "help" "h" "help"]

/-- The row has the word: it is between the shortest abbreviation and the name. -/
def Entry.has (e : Entry) (word : Text) : Bool :=
  e.abbreviation.length ≤ word.length && word.length ≤ e.name.length &&
    startsWithIgnoreCase e.name word

/-- `Resolve`, with any table. -/
def resolveIn (table : List Entry) (word : Text) : Option Text :=
  if word = [] then none
  else if word = ['?'] then some "help".toList
  else (table.find? (·.has word)).map Entry.verb

/-- `Resolve`. -/
def resolve (word : Text) : Option Text := resolveIn table word

/-- A row that has a word is as the word up to the end of its abbreviation. -/
theorem Entry.take_of_has {e : Entry} {word : Text} (h : e.has word = true) :
    e.abbreviation.length ≤ word.length ∧ ∀ n ≤ word.length,
      (toUpperInvariant e.name).take n = (toUpperInvariant word).take n := by
  obtain ⟨hlengths, hstarts⟩ := Bool.and_eq_true_iff.mp h
  obtain ⟨hlong, -⟩ := Bool.and_eq_true_iff.mp hlengths
  refine ⟨of_decide_eq_true hlong, fun n hn => ?_⟩
  obtain ⟨rest, hrest⟩ := startsWithIgnoreCase_iff.mp hstarts
  rw [← hrest, List.take_append_of_le_length]
  rwa [toUpperInvariant, List.length_map]

/-- **No two rows with different verbs have a word in common.** It is checked on the rows, and is
all that the order of the table could matter for. -/
theorem verb_eq_of_has {e e' : Entry} (he : e ∈ table) (he' : e' ∈ table) {word : Text}
    (h : e.has word = true) (h' : e'.has word = true) : e.verb = e'.verb := by
  have hall : ∀ e ∈ table, ∀ e' ∈ table,
      (toUpperInvariant e.name).take (max e.abbreviation.length e'.abbreviation.length) =
        (toUpperInvariant e'.name).take (max e.abbreviation.length e'.abbreviation.length) →
      e.verb = e'.verb := by
    decide +kernel
  obtain ⟨hlong, htake⟩ := Entry.take_of_has h
  obtain ⟨hlong', htake'⟩ := Entry.take_of_has h'
  refine hall e he e' he' ?_
  rw [htake _ (max_le hlong hlong'), htake' _ (max_le hlong hlong')]

/-- **A word means the verb of any row that has it**, in whatever order the rows are. The first row
that is found may so be taken, as the source does. -/
theorem resolveIn_eq_some {rows : List Entry} (hperm : rows.Perm table) {word verb : Text} :
    resolveIn rows word = some verb ↔ word ≠ [] ∧
      (word = ['?'] ∧ verb = "help".toList ∨ ∃ e ∈ table, e.has word = true ∧ e.verb = verb) := by
  have hquestion : ∀ e ∈ table, e.has ['?'] = false := by decide +kernel
  rw [resolveIn]
  split
  · rename_i hnil
    exact iff_of_false (by simp) fun h => h.1 hnil
  · rename_i hne
    rw [and_iff_right hne]
    split
    · rename_i hword
      subst hword
      rw [Option.some.injEq]
      refine ⟨fun h => Or.inl ⟨rfl, h.symm⟩, ?_⟩
      rintro (⟨-, rfl⟩ | ⟨e, he, hhas, -⟩)
      · rfl
      · rw [hquestion e he] at hhas
        cases hhas
    · rename_i hword
      rw [Abbreviation.map_find?_eq_some_iff fun e he e' he' h h' =>
        verb_eq_of_has (hperm.mem_iff.mp he) (hperm.mem_iff.mp he') h h']
      simp only [hperm.mem_iff, hword, false_and, false_or]

end ClassicCommands

/-- **No word is ambiguous.** On the plain surface a word is read as a verb when it begins that verb
and no other; on the classic one it is read as the verb of any row that has it, and the order of the
rows does not matter. -/
theorem words_unambiguous :
    (∀ input verb, ConsoleVerbs.resolve input = some verb ↔
      input ≠ [] ∧ Abbreviation.Means (startsWithIgnoreCase · input) ConsoleVerbs.all verb) ∧
    ∀ rows, rows.Perm ClassicCommands.table → ∀ word verb,
      ClassicCommands.resolveIn rows word = some verb ↔ word ≠ [] ∧
        (word = ['?'] ∧ verb = "help".toList ∨
          ∃ e ∈ ClassicCommands.table, e.has word = true ∧ e.verb = verb) :=
  ⟨fun _ _ => ConsoleVerbs.resolve_eq_some, fun _ hperm _ _ =>
    ClassicCommands.resolveIn_eq_some hperm⟩

/-! ### Help -/

namespace ConsoleHelp

/-- The overview of the plain surface. -/
def plainOverview : List String :=
  ["This is a convers round-table chat. Just type a line to say it to everyone on your channel.",
    "Commands (any unambiguous abbreviation works):",
    "  join <channel>     move to a chat channel (e.g. 'join 2723' or just 'j 2723')",
    "  say <text>         say something to your channel (or just type the text)",
    "  who [*]            see who is here ('who' for your channel, 'who *' for everyone)",
    "  msg <call> <text>  send a private message to one person",
    "  topic [<text>]     show or set this channel's topic",
    "  mode [ch] [+/-..]  show or set channel modes (operators only to set)",
    "  personal [<text>]  set your personal note (or 'pers'); empty clears it",
    "  away [<text>]      mark yourself away (no text means you're back)",
    "  oper <secret>      become an operator (sysop secret from convers.yaml)",
    "  invite <call> [ch] invite someone to a channel",
    "  leave              leave this channel (ends your session)",
    "  quit               sign off",
    "  help [<command>]   this help, or help on one command"]

/-- `PlainTopics`. -/
def plainTopics : List (String × String) :=
  [("join", "join <channel>: move to a numbered chat channel. Bare 'join' shows your current " ++
      "channel."),
    ("say", "say <text>: send a line to everyone on your channel. You can also just type the " ++
      "text."),
    ("who", "who: list who is on your channel. 'who *' (or 'who all') lists everyone on the " ++
      "network."),
    ("msg", "msg <call> <text>: send a private message to one person, wherever they are."),
    ("topic", "topic <text>: set this channel's topic. Bare 'topic' shows the current one."),
    ("mode", "mode [ch] [+/-silptm]: show or set channel modes. Only operators may set them; " ++
      "e.g. 'mode +mt' moderates and topic-locks the current channel."),
    ("personal", "personal <text>: set your personal note that others see in 'who'. Empty " ++
      "clears it."),
    ("away", "away <text>: mark yourself away with a note. Bare 'away' marks you back."),
    ("oper", "oper <secret>: log in as an operator using the node sysop secret (from " ++
      "convers.yaml). Operators can set channel modes and the topic on +t channels."),
    ("invite", "invite <call> [channel]: invite someone to a channel (the current one if " ++
      "omitted)."),
    ("leave", "leave: leave your channel. As you are on one channel, this signs you off."),
    ("quit", "quit [reason]: sign off the convers session."),
    ("help", "help [command]: this overview, or one line of help on a single command.")]

/-- The overview of the classic surface. -/
def classicOverview : List String :=
  ["Classic convers commands (abbreviate by leaving out lower-case letters):",
    "  /Name <call> [ch]      (already logged in; switches channel)",
    "  /Join [n] /Channel [n] switch to channel n",
    "  /Who [*|n|...]         list users (/Users, /ONline are aliases)",
    "  /Msg <user> <text>     private message (/Send, /WRite, /QUEry)",
    "  /TOpic [text]          set/show channel topic ('@' clears)",
    "  /MOde [#ch] [+/-opts]  set/show channel modes (silptm; operators only to set)",
    "  /PErsonal [text]       set personal text (/NOTE); '@' clears",
    "  /Away [text]           mark away (no text = back)",
    "  /OPerator <secret>     become an operator (/SYsOp; sysop secret)",
    "  /Invite <user> [ch]    invite a user to a channel",
    "  /LEave                 leave the channel",
    "  /Quit [reason]         sign off (/BYe, /Exit)",
    "  /Help [command] or /?  this help"]

/-- `ClassicTopics`. -/
def classicTopics : List (String × String) :=
  [("join", "/Join [n] (or /Channel, /Name <call> [n]): switch to channel n."),
    ("who", "/Who [*|n|...] (aliases /Users, /ONline): list users and their channels."),
    ("msg", "/Msg <user> <text> (aliases /Send, /WRite, /QUEry): send a private message."),
    ("topic", "/TOpic [text]: set or show the channel topic. Text '@' removes it."),
    ("mode", "/MOde [#channel] [+/-silptm]: set or show channel modes (operators only to " ++
      "set). Bare /MOde shows the current channel's modes."),
    ("personal", "/PErsonal [text] (alias /NOTE): set personal description. '@' clears it."),
    ("away", "/Away [text]: mark away. No text marks you back."),
    ("oper", "/OPerator <secret> (alias /SYsOp): become an operator with the node sysop secret."),
    ("invite", "/Invite <user> [channel]: invite a user to a channel."),
    ("leave", "/LEave [channel]: leave the channel (signs off if it is your last)."),
    ("quit", "/Quit [reason] (aliases /BYe, /Exit): terminate the session."),
    ("help", "/Help [command] (or /?): this help, or help on one command.")]

/-- `SplitFirstWord`: what is before the first space. -/
def splitFirstWord (text : Text) : Text := text.takeWhile (· ≠ ' ')

/-- The line on a verb, if there is one. -/
def detail (topics : List (String × String)) (verb : Text) : Option Text :=
  (topics.find? (·.1.toList = verb)).map (·.2.toList)

/-- `Plain`. -/
def plain (topic : Text) : List Text :=
  let topic := trim topic
  let line := if topic.length = 0 then none
    else (ConsoleVerbs.resolve (splitFirstWord topic)).bind (detail plainTopics)
  (line.map (fun line => [line])).getD (plainOverview.map String.toList)

/-- `Classic`. -/
def classic (topic : Text) : List Text :=
  let topic := trim topic
  let head := splitFirstWord topic
  let line := if topic.length = 0 then none
    else (ClassicCommands.resolve (if head.head? = some '/' then head.tail else head)).bind
      (detail classicTopics)
  (line.map (fun line => [line])).getD (classicOverview.map String.toList)

/-- The help of a surface on a subject, as `HandleHelpAsync` has it. -/
def lines (isClassic : Bool) (subject : Text) : List Text :=
  if isClassic then classic subject else plain subject

end ConsoleHelp

end Convers
