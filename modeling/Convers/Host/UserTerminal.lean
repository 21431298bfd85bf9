import Convers.Host.CompressingLineTransport
import Convers.Host.InboundDemux
import Convers.Protocol.LineStream

/-!
# What a user types

Without peering a user session reads its lines from the connection itself
(`Convers.RhpTerminal`). With peering the demux has begun to read them through the transport
of a peer, so the session of a caller that is none goes on with that transport, behind the lines
read already (`Convers.ReplayTerminal`). That transport is one between hosts: it drops empty
lines, and takes the toggles of the compression for itself.

| a line of the caller | without peering | with peering |
|---|---|---|
| empty | read | dropped |
| a toggle | read | taken by the transport |
| an enabling toggle | read | and what follows may be decoded |
| any other | read | read |

So the two sessions read the same exactly when the stream has no line of the first three kinds
(`Convers.InboundDemux.readLines_eq_iff`).
-/

namespace Convers

/-! ### The terminals -/

/-- `RhpTerminal`, over the reads of a connection. -/
structure RhpTerminal where
  /-- `_assembler`. -/
  assembler : LineAssembler
  /-- `_pending`. -/
  pending : List Text
  deriving DecidableEq

namespace RhpTerminal

/-- The constructor. -/
def new : RhpTerminal := ⟨.fresh, []⟩

/-- `ReadLineAsync`: the next line, nothing at the end of the stream, and the reads that are
left. -/
def readLine : RhpTerminal → List (List UInt8) → Option Text × RhpTerminal × List (List UInt8)
  | t, [] =>
    match t.pending with
    | line :: pending => (some line, { t with pending := pending }, [])
    | [] => (none, t, [])
  | t, data :: reads =>
    match t.pending with
    | line :: pending => (some line, { t with pending := pending }, data :: reads)
    | [] =>
      let (assembler, lines) := t.assembler.feed data
      readLine ⟨assembler, lines⟩ reads

/-- All lines that are still to come. -/
def lines (t : RhpTerminal) (reads : List (List UInt8)) : List Text :=
  t.pending ++ (t.assembler.feedReads reads).2

/-- A call takes the first line there is. -/
theorem readLine_eq (t : RhpTerminal) (reads : List (List UInt8)) :
    (t.readLine reads).1 = (t.lines reads).head? ∧
      (t.readLine reads).2.1.lines (t.readLine reads).2.2 = (t.lines reads).tail := by
  induction reads generalizing t with
  | nil =>
    rw [readLine]
    rcases hp : t.pending with _ | ⟨line, pending⟩
    · simp [lines, hp, LineAssembler.feedReads]
    · simp [lines, hp, LineAssembler.feedReads]
  | cons data reads ih =>
    rw [readLine]
    rcases hp : t.pending with _ | ⟨line, pending⟩
    · have hsame : t.lines (data :: reads) =
          (⟨(t.assembler.feed data).1, (t.assembler.feed data).2⟩ : RhpTerminal).lines reads := by
        rw [lines, hp, List.nil_append]
        rfl
      rw [hsame]
      exact ih _
    · simp only [lines, hp, List.cons_append, List.head?_cons, List.tail_cons, true_and]

end RhpTerminal

/-- `ReplayTerminal`, over the transport of a peer. -/
structure ReplayTerminal where
  /-- `_link`. -/
  link : CompressingLineTransport
  /-- `_replay`. -/
  replay : List Text
  deriving DecidableEq

namespace ReplayTerminal

/-- `ReadLineAsync`. -/
def readLine (t : ReplayTerminal) (reads : List (List UInt8)) :
    Option Text × ReplayTerminal × List (List UInt8) :=
  match t.replay with
  | line :: replay => (some line, { t with replay := replay }, reads)
  | [] =>
    let (line, link, reads) := t.link.receiveLine reads
    (line, { t with link := link }, reads)

/-- All lines that are still to come. -/
def lines (t : ReplayTerminal) (reads : List (List UInt8)) : List Text :=
  t.replay ++ t.link.surfaced reads

/-- A call takes the first line there is. -/
theorem readLine_eq (t : ReplayTerminal) (reads : List (List UInt8)) :
    (t.readLine reads).1 = (t.lines reads).head? ∧
      (t.readLine reads).2.1.lines (t.readLine reads).2.2 = (t.lines reads).tail := by
  rw [readLine, lines]
  rcases hr : t.replay with _ | ⟨line, replay⟩
  · obtain ⟨hline, hrest⟩ := t.link.receiveLine_eq reads
    rw [List.nil_append]
    refine ⟨hline, ?_⟩
    dsimp only
    rw [lines]
    exact hrest
  · exact ⟨rfl, rfl⟩

end ReplayTerminal

/-- The terminal of a user session. -/
inductive UserTerminal where
  | rhp (t : RhpTerminal)
  | replay (t : ReplayTerminal)
  deriving DecidableEq

namespace UserTerminal

/-- `ReadLineAsync`. -/
def readLine (t : UserTerminal) (reads : List (List UInt8)) :
    Option Text × UserTerminal × List (List UInt8) :=
  match t with
  | rhp t =>
    let (line, t, reads) := t.readLine reads
    (line, rhp t, reads)
  | replay t =>
    let (line, t, reads) := t.readLine reads
    (line, replay t, reads)

/-- What so many calls of `ReadLineAsync` answer. -/
def readLines : ℕ → UserTerminal → List (List UInt8) → List (Option Text)
  | 0, _, _ => []
  | n + 1, t, reads =>
    let (line, t, reads) := t.readLine reads
    line :: readLines n t reads

/-- All lines that are still to come. -/
def lines (t : UserTerminal) (reads : List (List UInt8)) : List Text :=
  match t with
  | rhp t => t.lines reads
  | replay t => t.lines reads

variable {t t' : UserTerminal} {reads reads' : List (List UInt8)}

theorem readLine_eq (t : UserTerminal) (reads : List (List UInt8)) :
    (t.readLine reads).1 = (t.lines reads).head? ∧
      (t.readLine reads).2.1.lines (t.readLine reads).2.2 = (t.lines reads).tail :=
  match t with
  | rhp t => t.readLine_eq reads
  | replay t => t.readLine_eq reads

/-- **The calls answer the lines**, one each, and nothing after the last. How the reads are cut does
not show in them. -/
theorem readLines_eq (n : ℕ) (t : UserTerminal) (reads : List (List UInt8)) :
    readLines n t reads = (List.range n).map fun i => (t.lines reads)[i]? := by
  induction n generalizing t reads with
  | zero => rfl
  | succ n ih =>
    obtain ⟨hline, hrest⟩ := t.readLine_eq reads
    rw [readLines, List.range_succ_eq_map, List.map_cons, List.map_map]
    dsimp only
    rw [ih, hline, hrest, List.head?_eq_getElem?]
    refine congrArg _ (List.map_congr_left fun i _ => ?_)
    rw [List.getElem?_tail]
    rfl

/-- **Two terminals read the same** when the same lines are still to come. To compare two sessions
is so to compare two lists of lines. -/
theorem readLines_same_iff :
    (∀ n, readLines n t reads = readLines n t' reads') ↔ t.lines reads = t'.lines reads' := by
  constructor
  · intro h
    refine List.ext_getElem? fun i => ?_
    have hi := h (i + 1)
    rw [readLines_eq, readLines_eq] at hi
    exact List.map_inj_left.mp hi i (List.mem_range.mpr i.lt_succ_self)
  · intro h n
    rw [readLines_eq, readLines_eq, h]

end UserTerminal

/-! ### What the transport surfaces -/

namespace Receiver

variable {r : Receiver}

/-- What is routed is not empty, and no toggle. -/
theorem mem_route {armed : Bool} {lines : List Text} {line : Text}
    (h : line ∈ (route armed lines).2) :
    line.length ≠ 0 ∧ CompressionNegotiation.tryParse line = none := by
  induction lines generalizing armed with
  | nil => cases h
  | cons first lines ih =>
    by_cases hlen : first.length = 0
    · rw [route_blank _ hlen] at h
      exact ih h
    · rcases htoggle : CompressionNegotiation.tryParse first with _ | enabled
      · rw [route_text _ hlen htoggle] at h
        rcases List.mem_cons.mp h with rfl | h
        · exact ⟨hlen, htoggle⟩
        · exact ih h
      · rw [route_toggle _ hlen htoggle] at h
        exact ih h

/-- Lines that are neither empty nor toggles are routed as they are. -/
theorem route_plain {armed : Bool} {lines : List Text}
    (h : ∀ line ∈ lines, line.length ≠ 0 ∧ CompressionNegotiation.tryParse line = none) :
    route armed lines = (armed, lines) := by
  induction lines with
  | nil => rfl
  | cons line lines ih =>
    obtain ⟨hlen, htext⟩ := h line List.mem_cons_self
    rw [route_text _ hlen htext, ih fun l hl => h l (List.mem_cons_of_mem _ hl)]

/-- What a buffer surfaces was routed, whatever it was decoded to. -/
theorem mem_decodeBuffer {turns : ℕ} {buffer : List UInt8} {line : Text}
    (h : line ∈ (r.decodeBuffer turns buffer).2) :
    line.length ≠ 0 ∧ CompressionNegotiation.tryParse line = none := by
  induction turns generalizing r buffer with
  | zero => cases h
  | succ turns ih =>
    rw [decodeBuffer] at h
    split at h
    · cases h
    · rcases r.stage.decodeInbound buffer with ⟨plain, remainder⟩
      dsimp only at h
      split at h
      · cases h
      · split at h
        · rcases List.mem_append.mp h with h | h
          · exact mem_route h
          · exact ih h
        · exact mem_route h

/-- **What is surfaced is neither empty nor a toggle.** A transport is for the lines of hosts, and
these are not. -/
theorem mem_readAll {reads : List (List UInt8)} {line : Text} (h : line ∈ (r.readAll reads).2) :
    line.length ≠ 0 ∧ CompressionNegotiation.tryParse line = none := by
  induction reads generalizing r with
  | nil => cases h
  | cons raw reads ih =>
    rcases List.mem_append.mp h with h | h
    · exact mem_decodeBuffer h
    · exact ih h

/-- **A side that no offer arms hears its reads as text.** So a caller who sends no toggle is heard
to the last byte. -/
theorem readAll_not_armed (harmed : r.armed = false) (hcarry : r.carry = [])
    {reads : List (List UInt8)} (hsilent : r.Silent reads.flatten) :
    (r.readAll reads).2 = (r.hear reads.flatten).2 := by
  induction reads generalizing r with
  | nil => rfl
  | cons raw reads ih =>
    rw [List.flatten_cons, silent_append] at hsilent
    have hread : r.read raw = r.hear raw := by
      have hclean : ({ r with carry := [] } : Receiver) = r := by rw [← hcarry]
      rw [read, hclean, hcarry, List.nil_append]
      exact decodeBuffer_not_armed harmed hsilent.1 le_rfl
    have hkept : (r.hear raw).1.carry = [] := hcarry
    rw [readAll, List.flatten_cons, hear_append]
    dsimp only
    rw [hread, ih (hear_not_armed harmed hsilent.1) hkept hsilent.2]

end Receiver

/-- A line that both terminals read: it is not empty, and no toggle. -/
def PlainLine (line : Text) : Prop :=
  line.length ≠ 0 ∧ CompressionNegotiation.tryParse line = none

instance (line : Text) : Decidable (PlainLine line) := inferInstanceAs (Decidable (_ ∧ _))

/-- **A fresh transport surfaces every line** exactly when all of them are plain. One line that is
not plain is enough to lose it, or all that follows. -/
theorem CompressingLineTransport.surfaced_new_eq_iff (terminator : Char)
    (reads : List (List UInt8)) :
    (new terminator []).surfaced reads = streamLines [] reads.flatten ↔
      ∀ line ∈ streamLines [] reads.flatten, PlainLine line := by
  have hlines := (LineAssembler.lines_feed reads.flatten).1 []
  constructor
  · intro h line hline
    rw [← h] at hline
    exact Receiver.mem_readAll hline
  · intro h
    have hsilent : (new terminator []).receiver.Silent reads.flatten := by
      intro line hline
      have hplain : PlainLine line := h line (hlines ▸ hline)
      rw [hplain.2]
      nofun
    have hheard := Receiver.readAll_not_armed rfl rfl hsilent
    have hroute : ((new terminator []).receiver.hear reads.flatten).2 =
        (Receiver.route false (LineAssembler.fresh.feed reads.flatten).2).2 := rfl
    have hfresh : (LineAssembler.fresh.feed reads.flatten).2 = streamLines [] reads.flatten :=
      hlines
    rw [surfaced, hheard, hroute, hfresh, Receiver.route_plain h]
    rfl

/-! ### The demux -/

/-- What becomes of an inbound connection, with the reads that are left. -/
inductive Handled where
  /-- A peer session, over its transport. -/
  | peer (transport : CompressingLineTransport) (reads : List (List UInt8))
  /-- A user session, over its terminal. -/
  | user (terminal : UserTerminal) (reads : List (List UInt8))

namespace InboundDemux

/-- The loop of `TryHandleAsPeerAsync`, over the reads that come in time. When they run out the
stream has ended, or the wait is over. -/
def peekReads : ℕ → Peeked → CompressingLineTransport → List (List UInt8) →
    Peeked × CompressingLineTransport × List (List UInt8)
  | 0, peeked, link, reads => (peeked, link, reads)
  | k + 1, peeked, link, reads =>
    match link.receiveLine reads with
    | (none, link, reads) => (peeked, link, reads)
    | (some line, link, reads) =>
      let peeked := { peeked with buffered := peeked.buffered ++ [line] }
      match HostCommandCodec.tryParse line with
      | .ok (some (.hostHandshake ..)) => ({ peeked with hostLine := some line }, link, reads)
      | .ok (some (.unknownHostCommand verb body)) =>
        if verb = "PASS".toList then
          peekReads k { peeked with password := some body } link reads
        else (peeked, link, reads)
      | _ => (peeked, link, reads)

/-- `TryHandleAsPeerAsync`, where the reads `early` come before the wait is over. -/
def tryHandleAsPeer (policy : PeeringPolicy) (remoteCallsign : Text)
    (early late : List (List UInt8)) : Handled :=
  let (peeked, link, reads) := peekReads maxPeekLines ⟨[], none, none⟩ (.new '\r' []) early
  if peeked.hostLine.isSome && policy.isAllowed remoteCallsign &&
      policy.passwordOk peeked.password then
    .peer (link.prependBufferedLines peeked.buffered) (reads ++ late)
  else .user (.replay ⟨link, peeked.buffered⟩) (reads ++ late)

/-- `HandleChildAsync`, up to the session. -/
def handleChild (policy : PeeringPolicy) (canBuildPeer : Bool) (remoteCallsign : Text)
    (early late : List (List UInt8)) : Handled :=
  if policy.enabled && canBuildPeer then tryHandleAsPeer policy remoteCallsign early late
  else .user (.rhp .new) (early ++ late)

/-- **A call in time** is one on all reads: what it answers, and what is surfaced behind it, are the
lines of the stream. When the wait is over the late reads come to the same transport. -/
theorem receiveLine_early (link : CompressingLineTransport) (early late : List (List UInt8)) :
    (link.receiveLine early).1.toList ++
        (link.receiveLine early).2.1.surfaced ((link.receiveLine early).2.2 ++ late) =
      link.surfaced (early ++ late) := by
  induction early generalizing link with
  | nil =>
    rw [CompressingLineTransport.receiveLine]
    rcases hp : link.pending with _ | ⟨line, pending⟩
    · rfl
    · simp only [CompressingLineTransport.surfaced, hp]
      rfl
  | cons raw early ih =>
    rw [CompressingLineTransport.receiveLine]
    rcases hp : link.pending with _ | ⟨line, pending⟩
    · obtain ⟨hreceiver, hpending⟩ := link.receiveRead_eq raw
      refine (ih _).trans ?_
      rw [CompressingLineTransport.surfaced, CompressingLineTransport.surfaced, hreceiver,
        hpending, hp, List.nil_append, List.nil_append]
      rfl
    · simp only [CompressingLineTransport.surfaced, hp]
      rfl

/-- **The peek loses no line**: those that were read, and those the transport still surfaces. They
are put back in front of whichever session there is to be. -/
theorem lines_peekReads (k : ℕ) (peeked : Peeked) (link : CompressingLineTransport)
    (early late : List (List UInt8)) :
    (peekReads k peeked link early).1.buffered ++
        (peekReads k peeked link early).2.1.surfaced
          ((peekReads k peeked link early).2.2 ++ late) =
      peeked.buffered ++ link.surfaced (early ++ late) := by
  induction k generalizing peeked link early with
  | zero => rfl
  | succ k ih =>
    have hcall := receiveLine_early link early late
    rw [peekReads, ← hcall]
    rcases link.receiveLine early with ⟨_ | line, link', reads⟩
    · rfl
    · have hline : peeked.buffered ++ ((some line).toList ++ link'.surfaced (reads ++ late)) =
          (peeked.buffered ++ [line]) ++ link'.surfaced (reads ++ late) := by
        rw [List.append_assoc]
        rfl
      dsimp only
      rw [hline]
      split
      · rfl
      · split
        · exact ih _ _ _
        · rfl
      · rfl

/-- The peek of the transport is that of its lines. -/
theorem peekReads_eq_peek (k : ℕ) (peeked : Peeked) (link : CompressingLineTransport)
    (reads : List (List UInt8)) :
    (peekReads k peeked link reads).1 = peek k peeked (link.surfaced reads) := by
  induction k generalizing peeked link reads with
  | zero => rfl
  | succ k ih =>
    obtain ⟨hhead, htail⟩ := link.receiveLine_eq reads
    rw [peekReads]
    rcases hreceive : link.receiveLine reads with ⟨_ | line, link', rest⟩
    · rw [hreceive] at hhead
      rw [List.head?_eq_none_iff.mp hhead.symm]
      rfl
    · rw [hreceive] at hhead htail
      obtain ⟨lines, hlines⟩ := List.head?_eq_some_iff.mp hhead.symm
      rw [hlines, List.tail_cons] at htail
      rw [hlines, peek, ← htail]
      dsimp only
      rcases HostCommandCodec.tryParse line with fault | _ | command
      · rfl
      · rfl
      · cases command with
        | unknownHostCommand verb body =>
          dsimp only
          split
          · exact ih _ _ _
          · rfl
        | _ => rfl

section User

variable {policy : PeeringPolicy} {remoteCallsign : Text} {early late reads : List (List UInt8)}
  {terminal : UserTerminal}

/-- A caller that is not allowed becomes a user. -/
theorem handleChild_of_not_allowed (h : policy.isAllowed remoteCallsign = false)
    (early late : List (List UInt8)) :
    ∃ terminal reads,
      handleChild policy true remoteCallsign early late = .user terminal reads := by
  rw [handleChild, tryHandleAsPeer, h]
  split
  · exact ⟨_, _, if_neg (by simp)⟩
  · exact ⟨_, _, rfl⟩

/-- **A connection is a peer's** exactly when the lines that come in time make it one. So what is
shown of the lines of a peer holds of the reads they come in. -/
theorem isPeer_handleChild_iff (henabled : policy.enabled = true) :
    (∃ transport rest, handleChild policy true remoteCallsign early late = .peer transport rest) ↔
      (peerLines policy remoteCallsign
        ((CompressingLineTransport.new '\r' []).surfaced early)).isSome = true := by
  rw [handleChild, henabled, Bool.and_true, if_pos rfl, tryHandleAsPeer, peerLines, henabled,
    Bool.true_and, ← peekReads_eq_peek]
  dsimp only
  split
  · exact ⟨fun _ => rfl, fun _ => ⟨_, _, rfl⟩⟩
  · refine ⟨?_, ?_⟩
    · rintro ⟨transport, rest, hpeer⟩
      cases hpeer
    · rintro hsome
      cases hsome

/-- **The lines of a user with peering** are those a fresh transport surfaces. It does not matter
how many of them came before the wait was over. -/
theorem lines_of_handleChild (henabled : policy.enabled = true)
    (huser : handleChild policy true remoteCallsign early late = .user terminal reads) :
    terminal.lines reads = (CompressingLineTransport.new '\r' []).surfaced (early ++ late) := by
  have hlines := lines_peekReads maxPeekLines ⟨[], none, none⟩ (.new '\r' []) early late
  rw [handleChild, henabled, Bool.and_true, if_pos rfl, tryHandleAsPeer] at huser
  dsimp only at huser
  split at huser
  · cases huser
  · cases huser
    exact hlines.trans (List.nil_append _)

/-- The lines of a user without peering are those of the stream. -/
theorem lines_new (reads : List (List UInt8)) :
    (UserTerminal.rhp .new).lines reads = streamLines [] reads.flatten :=
  (LineAssembler.lines_feedReads reads).2.1

/-- **Peering does not change what a user reads** exactly when every line of the stream is plain. A
user who pages with empty lines finds out that there is peering. -/
theorem readLines_eq_iff (henabled : policy.enabled = true)
    (huser : handleChild policy true remoteCallsign early late = .user terminal reads) :
    (∀ n, terminal.readLines n reads = (UserTerminal.rhp .new).readLines n (early ++ late)) ↔
      ∀ line ∈ streamLines [] (early ++ late).flatten, PlainLine line := by
  rw [UserTerminal.readLines_same_iff, lines_of_handleChild henabled huser, lines_new]
  exact CompressingLineTransport.surfaced_new_eq_iff '\r' (early ++ late)

end User

/-- Peering is on, and nobody is allowed. -/
def closedPolicy : PeeringPolicy := .new true [] none

/-- A caller that asks for help in two reads, the second of which comes late. -/
theorem readLines_eq_example :
    closedPolicy.enabled = true ∧ ∃ terminal reads,
      handleChild closedPolicy true "M0LTE".toList [encode "/he".toList]
        [encode "lp\r".toList] = .user terminal reads ∧
      ((∀ n, terminal.readLines n reads = (UserTerminal.rhp .new).readLines n
          ([encode "/he".toList] ++ [encode "lp\r".toList])) ↔
        ∀ line ∈ streamLines [] ([encode "/he".toList] ++ [encode "lp\r".toList]).flatten,
          PlainLine line) ∧
      ∀ line ∈ streamLines [] ([encode "/he".toList] ++ [encode "lp\r".toList]).flatten,
        PlainLine line := by
  have henabled : closedPolicy.enabled = true := rfl
  have hallowed : closedPolicy.isAllowed "M0LTE".toList = false := by decide +kernel
  obtain ⟨terminal, reads, huser⟩ :=
    handleChild_of_not_allowed hallowed [encode "/he".toList] [encode "lp\r".toList]
  exact ⟨henabled, terminal, reads, huser, readLines_eq_iff henabled huser, by decide +kernel⟩

/-- **The caller only sends a CR**, to see the next page: the session reads an empty line without
peering, and none with it. -/
theorem not_readLines_eq :
    ¬ ∀ (policy : PeeringPolicy) (remoteCallsign : Text) (early late : List (List UInt8))
      (terminal : UserTerminal) (reads : List (List UInt8)), policy.enabled = true →
        handleChild policy true remoteCallsign early late = .user terminal reads →
          ∀ n, terminal.readLines n reads =
            (UserTerminal.rhp .new).readLines n (early ++ late) := by
  intro h
  have henabled : closedPolicy.enabled = true := rfl
  have hallowed : closedPolicy.isAllowed "M0LTE".toList = false := by decide +kernel
  obtain ⟨terminal, reads, huser⟩ := handleChild_of_not_allowed hallowed [encode "\r".toList] []
  have hsame := UserTerminal.readLines_same_iff.mp
    (h closedPolicy _ [encode "\r".toList] [] terminal reads henabled huser)
  rw [lines_of_handleChild henabled huser, lines_new] at hsame
  have hdiffer : (CompressingLineTransport.new '\r' []).surfaced ([encode "\r".toList] ++ []) ≠
      streamLines [] ([encode "\r".toList] ++ []).flatten := by decide +kernel
  exact hdiffer hsame

end InboundDemux

end Convers
