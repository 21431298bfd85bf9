import Convers.Host.CompressingLineTransport
import Convers.Protocol.CheckedDecode

/-!
# Malformed frames

A peer may send anything. This file says what a frame that is none can do: the decoder
ends on it, in bounds (`Convers.Compression.decodeFrame_eq`), and the loop that decodes
what was read piece by piece ends too.

The loop has no bound of its own. `Convers.CompressingLineTransport.receiveTurn` is one
turn of it as the code has it, with the exit it keeps for a decode that returns bytes
without taking any. That exit is never taken
(`Convers.HostLinkCompression.length_decodeInbound`): a stage passes a buffer through
whole, holds it, or takes at least one byte off it. So every turn but the last one
leaves a shorter buffer, and the loop is the bounded one of
`Convers.CompressingLineTransport.decodeBuffer`.
-/

namespace Convers

open Compression

/-- **A stage decodes nothing, or takes something**: the bytes it leaves are fewer than those it is
given, unless it returns none. It is the measure on which the loop over a buffer ends. -/
theorem HostLinkCompression.length_decodeInbound (c : HostLinkCompression) {buffer : List UInt8}
    (hbuffer : buffer.length ≠ 0) :
    (c.decodeInbound buffer).1.length = 0 ∨
      (c.decodeInbound buffer).2.length < buffer.length := by
  have hpass : ([] : List UInt8).length < buffer.length := Nat.pos_of_ne_zero hbuffer
  have hdrop : ∀ n, (buffer.drop (n + 1)).length < buffer.length := by
    intro n
    rw [List.length_drop]
    omega
  rw [decodeInbound, if_neg hbuffer]
  split
  · split
    · exact Or.inr hpass
    · split_ifs
      · exact Or.inr hpass
      · exact Or.inr (hdrop _)
  · split
    · exact Or.inr hpass
    · split
      · rename_i decoded consumed hdecode
        obtain ⟨n, rfl⟩ : ∃ n, consumed = n + 1 :=
          ⟨consumed - 1, (Nat.succ_pred_eq_of_pos (consumed_pos hdecode)).symm⟩
        rw [if_pos (Nat.succ_pos n)]
        dsimp only
        split_ifs
        · exact Or.inr (hdrop n)
        · exact Or.inr hpass
      · split_ifs
        · exact Or.inl rfl
        · exact Or.inr hpass

namespace CompressingLineTransport

/-- One turn of the inner loop of `ReceiveLineAsync`, on a buffer. -/
def receiveTurn (t : CompressingLineTransport) (buffer : List UInt8) :
    Turn (CompressingLineTransport × List UInt8) CompressingLineTransport :=
  if buffer.length = 0 then .finished t
  else
    let (plain, remainder) := t.compression.decodeInbound buffer
    let madeProgress : Bool := remainder.length < buffer.length
    if plain.length = 0 then .finished { t with carry := remainder }
    else
      let t := t.feed plain
      if !madeProgress then .finished { t with carry := remainder } else .more (t, remainder)

/-- The inner loop of `ReceiveLineAsync`, within a step budget. -/
def receiveTurns : ℕ → CompressingLineTransport → List UInt8 →
    Except Fault CompressingLineTransport
  | 0, _, _ => .error .outOfSteps
  | n + 1, t, buffer =>
    match t.receiveTurn buffer with
    | .finished t => .ok t
    | .more (t, buffer) => receiveTurns n t buffer

/-- **The loop makes progress or stops**: a turn decodes nothing or takes something, what it
leaves for the next turn is shorter, and the loop ends before it has had a turn for each
byte of the buffer and one more. -/
structure Progresses (t : CompressingLineTransport) (buffer : List UInt8) : Prop where
  takes : buffer.length ≠ 0 → (t.compression.decodeInbound buffer).1.length = 0 ∨
    (t.compression.decodeInbound buffer).2.length < buffer.length
  shorter : ∀ t' buffer', t.receiveTurn buffer = .more (t', buffer') →
    buffer'.length < buffer.length
  ends : ∀ budget, buffer.length < budget →
    receiveTurns budget t buffer = .ok (decodeBuffer buffer.length t buffer)

variable {t : CompressingLineTransport} {buffer : List UInt8}

/-- What a turn that is not the last one leaves. -/
theorem receiveTurn_eq_more {t' : CompressingLineTransport} {buffer' : List UInt8}
    (h : t.receiveTurn buffer = .more (t', buffer')) :
    buffer.length ≠ 0 ∧ (t.compression.decodeInbound buffer).1.length ≠ 0 ∧
      t' = t.feed (t.compression.decodeInbound buffer).1 ∧
        buffer' = (t.compression.decodeInbound buffer).2 ∧ buffer'.length < buffer.length := by
  rw [receiveTurn] at h
  split_ifs at h with hbuffer
  rcases hdecode : t.compression.decodeInbound buffer with ⟨plain, remainder⟩
  simp only [hdecode] at h
  split_ifs at h with hplain hprogress
  cases h
  exact ⟨hbuffer, hplain, rfl, rfl, by simpa using hprogress⟩

/-- **The loop of the code is the bounded one**: it ends, and in the same transport. So the turns
that the model counts cut nothing off. -/
theorem receiveTurns_eq {n budget : ℕ} (hn : buffer.length ≤ n) (hbudget : n < budget) :
    receiveTurns budget t buffer = .ok (decodeBuffer n t buffer) := by
  induction n generalizing t buffer budget with
  | zero =>
    obtain ⟨m, rfl⟩ : ∃ m, budget = m + 1 := ⟨budget - 1, by omega⟩
    rw [receiveTurns, receiveTurn, if_pos (by omega)]
    rfl
  | succ n ih =>
    obtain ⟨m, rfl⟩ : ∃ m, budget = m + 1 := ⟨budget - 1, by omega⟩
    rw [receiveTurns, receiveTurn, decodeBuffer]
    by_cases hbuffer : buffer.length = 0
    · rw [if_pos hbuffer, if_pos hbuffer]
    · rw [if_neg hbuffer, if_neg hbuffer]
      rcases t.compression.decodeInbound buffer with ⟨plain, remainder⟩
      dsimp only
      by_cases hplain : plain.length = 0
      · rw [if_pos hplain, if_pos hplain]
      · rw [if_neg hplain, if_neg hplain]
        by_cases hprogress : remainder.length < buffer.length
        · rw [if_pos hprogress, if_neg (by simp [hprogress])]
          exact ih (by omega) (by omega)
        · rw [if_neg hprogress, if_pos (by simp [hprogress])]

theorem progresses (t : CompressingLineTransport) (buffer : List UInt8) : t.Progresses buffer where
  takes := t.compression.length_decodeInbound
  shorter _ _ h := (receiveTurn_eq_more h).2.2.2.2
  ends _ hbudget := receiveTurns_eq (le_refl _) hbudget

end CompressingLineTransport

/-- **Malformed frames are harmless**: on every byte string the decoder ends within a fixed
number of turns, with no access out of range, and returns what a result may be; and on
every buffer the receive loop makes progress or stops. -/
theorem malformed_harmless :
    (∀ frame : List UInt8, ∃ result : DecodeResult, result.WellFormed frame ∧
      ∀ budget, decodeBudget ≤ budget → decodeFrame budget frame = .ok result) ∧
    ∀ (t : CompressingLineTransport) (buffer : List UInt8), t.Progresses buffer :=
  ⟨fun frame => ⟨_, wellFormed_tryDecodeFrame frame, fun _ hbudget => decodeFrame_eq frame hbudget⟩,
    CompressingLineTransport.progresses⟩

end Convers
