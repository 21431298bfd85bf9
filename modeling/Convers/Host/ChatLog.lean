import Convers.Host.Dispatch

/-!
# The chat log

What is said, and who comes, goes and is away, is written to a table that is never pruned
(`Convers.ChatLog`): its rows have increasing ids. The loop shows every event to the writer, one
of another host before the hub is advanced and one of a session after, with the answer: what the hub
refused was not said. `Convers.ChatLog.queryChatLog` reads rows back, newest first.
-/

namespace Convers

/-- `ChatLogKind`. -/
inductive ChatLogKind where
  | channel
  | privateMessage
  | presence
  deriving DecidableEq

/-- `ChatLogOrigin`. -/
inductive ChatLogOrigin where
  | ofLocal
  | network
  deriving DecidableEq

/-- `ChatLogEntry`, but for the time, which the writer leaves to the store. -/
structure ChatLogEntry where
  kind : ChatLogKind
  channel : Option Int32
  fromCall : Text
  toCall : Option Text
  origin : ChatLogOrigin
  text : Text
  deriving DecidableEq

/-- A row of the table. -/
structure ChatLogRow extends ChatLogEntry where
  id : ℕ
  utc : ℤ
  deriving DecidableEq

/-- The table: the ids are those given out so far. -/
structure ChatLog where
  rows : List ChatLogRow
  lastId : ℕ
  le_lastId : ∀ row ∈ rows, row.id ≤ lastId

namespace ChatLog

/-- A log without rows. -/
def empty : ChatLog := ⟨[], 0, nofun⟩

/-- The row of an entry: the callsigns are stored in canonical form. -/
def rowOf (id : ℕ) (now : DateTimeOffset) (entry : ChatLogEntry) : ChatLogRow :=
  { entry with
    id := id
    utc := now.toUnixTimeSeconds
    fromCall := Callsigns.normalize entry.fromCall
    toCall := entry.toCall.bind fun call =>
      if call.length = 0 then none else some (Callsigns.normalize call) }

/-- `AppendChatLog`; an entry from nobody is rejected, which the writer ignores. -/
def appendChatLog (log : ChatLog) (now : DateTimeOffset) (entry : ChatLogEntry) : ChatLog :=
  if isNullOrWhiteSpace entry.fromCall then log
  else
    { rows := log.rows ++ [rowOf (log.lastId + 1) now entry]
      lastId := log.lastId + 1
      le_lastId := fun row hrow => by
        rcases List.mem_append.mp hrow with hrow | hrow
        · exact (log.le_lastId row hrow).trans (Nat.le_succ _)
        · rw [List.mem_singleton.mp hrow]
          exact le_rfl }

/-- A row of the log is an old one or the one appended. -/
theorem mem_appendChatLog {log : ChatLog} {now : DateTimeOffset} {entry : ChatLogEntry}
    {row : ChatLogRow} (h : row ∈ (log.appendChatLog now entry).rows) :
    row ∈ log.rows ∨ row = rowOf (log.lastId + 1) now entry := by
  rw [appendChatLog] at h
  split at h
  · exact Or.inl h
  · exact (List.mem_append.mp h).imp_right List.mem_singleton.mp

/-- `DefaultChatLogLimit`. -/
def defaultChatLogLimit : ℕ := 500

/-- `ORDER BY utc DESC, id DESC`. -/
def Newer (r s : ChatLogRow) : Prop := s.utc < r.utc ∨ s.utc = r.utc ∧ s.id ≤ r.id

instance : DecidableRel Newer := fun _ _ => inferInstanceAs (Decidable (_ ∨ _))

/-- `QueryChatLog`. -/
def queryChatLog (log : ChatLog) (channel : Option Int32) (kind : Option ChatLogKind)
    (sinceUtc : Option DateTimeOffset) (limit : Option Int32) : List ChatLogRow :=
  let cap := match limit with
    | some limit => if limit > 0 then limit.toInt.toNat else defaultChatLogLimit
    | none => defaultChatLogLimit
  ((log.rows.filter fun row =>
    channel.all (fun channel => row.channel = some channel) && kind.all (row.kind = ·) &&
      sinceUtc.all fun since => since.toUnixTimeSeconds ≤ row.utc).insertionSort Newer).take cap

end ChatLog

/-! ### The writer -/

namespace ChatLogWriter

/-- `Presence`. -/
def presence (fromCall : Text) (channel : Option Int32) (text : Text) (origin : ChatLogOrigin) :
    ChatLogEntry :=
  { kind := .presence, channel := channel, fromCall := fromCall, toCall := none, origin := origin,
    text := text }

/-- `LogNetwork`. -/
def logNetwork : ConversEvent → Option ChatLogEntry
  | .hostChannelMessage user channel text =>
    if text.length ≠ 0 then
      some { kind := .channel, channel := some channel, fromCall := user, toCall := none,
             origin := .network, text := text }
    else none
  | .hostPrivateMessage source target text =>
    if text.length ≠ 0 then
      some { kind := .privateMessage, channel := none, fromCall := source, toCall := some target,
             origin := .network, text := text }
    else none
  | .hostUser user _ _ fromChannel toChannel personal _ =>
    some (presence user (some (if toChannel = -1 then fromChannel else toChannel))
      (if toChannel = -1 then
        if personal.length = 0 then "left".toList else "left: ".toList ++ personal
      else if fromChannel = -1 then "joined".toList
      else "joined (from ".toList ++ decimal fromChannel.toInt ++ [')']) .network)
  | .hostAway user _ _ text =>
    some (presence user none
      (if text.length = 0 then "back".toList else "away: ".toList ++ text) .network)
  | _ => none

/-- `Refused`. -/
def refused (actions : List ConversAction) : Bool :=
  actions.any fun
    | .deliverModeNotice .. => true
    | _ => false

/-- `AnnouncedPresence`. -/
def announcedPresence (actions : List ConversAction) : Bool :=
  actions.any fun
    | .sendUser .. => true
    | _ => false

/-- `LogLocal`. -/
def logLocal (event : ConversEvent) (fromCall : Text) (channel : Int32)
    (actions : List ConversAction) : Option ChatLogEntry :=
  if refused actions then none
  else
    match event with
    | .localSay _ text =>
      if text.length ≠ 0 then
        some { kind := .channel, channel := some channel, fromCall := fromCall, toCall := none,
               origin := .ofLocal, text := text }
      else none
    | .localPrivateMessage _ toUser text =>
      if text.length ≠ 0 then
        some { kind := .privateMessage, channel := none, fromCall := fromCall,
               toCall := some (Callsigns.normalize toUser), origin := .ofLocal, text := text }
      else none
    | .localJoin _ _ joined =>
      if announcedPresence actions then
        some (presence fromCall (some joined) "joined".toList .ofLocal)
      else none
    | .localSwitchChannel _ joined =>
      if announcedPresence actions then
        some (presence fromCall (some joined) "joined".toList .ofLocal)
      else none
    | .localLeave _ reason =>
      some (presence fromCall (some channel)
        (if (trim reason).length = 0 then "left".toList else "left: ".toList ++ trim reason)
        .ofLocal)
    | .localSetAway _ away =>
      some (presence fromCall (some channel)
        (if (trim away).length = 0 then "back".toList else "away: ".toList ++ trim away) .ofLocal)
    | _ => none

/-- What the writer makes of a call of the loop. -/
def entryOf : HostLink.Effect → Option ChatLogEntry
  | .onInbound event => logNetwork event
  | .onLocal event fromCall channel actions => logLocal event fromCall channel actions
  | _ => none

/-- The writer sees the calls of the loop. -/
def record (now : DateTimeOffset) (log : ChatLog) (effects : List HostLink.Effect) : ChatLog :=
  (effects.filterMap entryOf).foldl (fun log entry => log.appendChatLog now entry) log

end ChatLogWriter

/-! ### Logs that differ in some texts -/

/-- The same entry with another text. -/
def ChatLogEntry.Retold (e f : ChatLogEntry) : Prop := f = { e with text := f.text }

namespace ChatLog

/-- Two rows of one message with two texts. -/
structure SameButText (r s : ChatLogRow) : Prop where
  kind : s.kind = r.kind
  channel : s.channel = r.channel
  fromCall : s.fromCall = r.fromCall
  toCall : s.toCall = r.toCall
  origin : s.origin = r.origin
  id : s.id = r.id
  utc : s.utc = r.utc

variable {P : ChatLogRow → Prop}

/-- A row is the same in two logs, unless it is one of some. -/
def Differs (P : ChatLogRow → Prop) (r s : ChatLogRow) : Prop :=
  SameButText r s ∧ (P r ∨ s = r)

theorem Differs.refl (r : ChatLogRow) : Differs P r r :=
  ⟨⟨rfl, rfl, rfl, rfl, rfl, rfl, rfl⟩, Or.inr rfl⟩

theorem newer_congr {r s r' s' : ChatLogRow} (hr : SameButText r r') (hs : SameButText s s') :
    Newer r' s' ↔ Newer r s := by
  rw [Newer, Newer, hr.utc, hr.id, hs.utc, hs.id]

theorem forall₂_orderedInsert {r s : ChatLogRow} (hrs : Differs P r s) {l m : List ChatLogRow}
    (h : List.Forall₂ (Differs P) l m) :
    List.Forall₂ (Differs P) (l.orderedInsert Newer r) (m.orderedInsert Newer s) := by
  induction h with
  | nil => exact .cons hrs .nil
  | @cons a b l m hab h ih =>
    have hnewer := newer_congr hrs.1 hab.1
    rw [List.orderedInsert, List.orderedInsert]
    by_cases hra : Newer r a
    · rw [if_pos hra, if_pos (hnewer.mpr hra)]
      exact .cons hrs (.cons hab h)
    · rw [if_neg hra, if_neg (mt hnewer.mp hra)]
      exact .cons hab ih

theorem forall₂_insertionSort {l m : List ChatLogRow} (h : List.Forall₂ (Differs P) l m) :
    List.Forall₂ (Differs P) (l.insertionSort Newer) (m.insertionSort Newer) := by
  induction h with
  | nil => exact .nil
  | cons hab h ih => exact forall₂_orderedInsert hab ih

/-- **A query finds the same rows**, but for the texts. The filters look at the channel, the kind
and the time of a row, and never at its text. -/
theorem forall₂_queryChatLog {log log' : ChatLog} (h : List.Forall₂ (Differs P) log.rows log'.rows)
    (channel : Option Int32) (kind : Option ChatLogKind) (sinceUtc : Option DateTimeOffset)
    (limit : Option Int32) :
    List.Forall₂ (Differs P) (log.queryChatLog channel kind sinceUtc limit)
      (log'.queryChatLog channel kind sinceUtc limit) := by
  refine List.forall₂_take _ (forall₂_insertionSort (List.rel_filter ?_ h))
  rintro r s ⟨hrs, -⟩
  dsimp only
  rw [hrs.channel, hrs.kind, hrs.utc]

/-- **Logs stay alike** when an entry is appended to both, the same or one with another text. The
log of a run is followed so, one event after another. -/
theorem appendChatLog_differs {log log' : ChatLog} {now : DateTimeOffset}
    {entry entry' : ChatLogEntry} (h : List.Forall₂ (Differs P) log.rows log'.rows)
    (hlast : log'.lastId = log.lastId) (hentry : entry.Retold entry')
    (hnew : entry' = entry ∨
      ∀ row ∈ (log.appendChatLog now entry).rows, log.lastId < row.id → P row) :
    List.Forall₂ (Differs P) (log.appendChatLog now entry).rows
      (log'.appendChatLog now entry').rows ∧
        (log'.appendChatLog now entry').lastId = (log.appendChatLog now entry).lastId := by
  have hfrom : entry'.fromCall = entry.fromCall := by rw [hentry]
  rw [appendChatLog] at hnew
  rw [appendChatLog, appendChatLog, hfrom]
  split
  · exact ⟨h, hlast⟩
  · rename_i hblank
    rw [if_neg hblank] at hnew
    dsimp only at hnew ⊢
    rw [hlast]
    refine ⟨List.rel_append h (.cons ⟨?_, ?_⟩ .nil), rfl⟩
    · rw [hentry]
      exact ⟨rfl, rfl, rfl, rfl, rfl, rfl, rfl⟩
    · rcases hnew with rfl | hnew
      · exact Or.inr rfl
      · exact Or.inl (hnew _ (List.mem_append_right _ (List.mem_singleton_self _))
          (Nat.lt_succ_self _))

/-- And when the same entries are appended to both. -/
theorem foldl_appendChatLog_differs {log log' : ChatLog} (now : DateTimeOffset)
    (entries : List ChatLogEntry) (h : List.Forall₂ (Differs P) log.rows log'.rows)
    (hlast : log'.lastId = log.lastId) :
    let append := fun (log : ChatLog) (entry : ChatLogEntry) => log.appendChatLog now entry
    List.Forall₂ (Differs P) (entries.foldl append log).rows (entries.foldl append log').rows ∧
      (entries.foldl append log').lastId = (entries.foldl append log).lastId := by
  induction entries generalizing log log' with
  | nil => exact ⟨h, hlast⟩
  | cons entry entries ih =>
    have hsame : entry.Retold entry := rfl
    obtain ⟨hrows, hlast⟩ := appendChatLog_differs h hlast hsame (Or.inl rfl)
    exact ih hrows hlast

/-- Logs that differ in none of the rows there are. -/
theorem eq_of_forall₂ {l m : List ChatLogRow} (h : List.Forall₂ (Differs P) l m)
    (hnone : ∀ r ∈ l, ¬P r) : m = l := by
  induction h with
  | nil => rfl
  | cons hab h ih =>
    rw [hab.2.resolve_left (hnone _ List.mem_cons_self),
      ih fun r hr => hnone r (List.mem_cons_of_mem _ hr)]

end ChatLog

end Convers
