import Mathlib

/-!
# Heartbeats

One end of a link pings the other. It looks at its clock now and then, and pings when `interval`
has gone by since it last did so. The other end notes when it last heard of it. What happens to
the two is a list of beats (`Heartbeat.Beat`).

When the looks are at most `period` apart, and whatever is pinged is heard of within `delay`
(`Heartbeat.Punctual`), then the other end has never been without news for longer than the three
together (`Heartbeat.Kept.sub_lastHeard_le`).
-/

namespace Heartbeat

/-- What happens on a link, and when. -/
inductive Beat where
  /-- One end looks at its clock, and pings. -/
  | ping (time : ℤ)
  /-- It looks at its clock, and does not. -/
  | tick (time : ℤ)
  /-- The other end hears of it. -/
  | hear (time : ℤ)
  /-- Something else. -/
  | pass (time : ℤ)
  deriving DecidableEq

namespace Beat

/-- When it happens. -/
def time : Beat → ℤ
  | ping t | tick t | hear t | pass t => t

/-- Whether the one end looks at its clock. -/
def isTick : Beat → Bool
  | ping _ | tick _ => true
  | hear _ | pass _ => false

end Beat

/-- When the one end last pinged. -/
def lastPing (first : ℤ) (beats : List Beat) : ℤ :=
  beats.foldl (fun t b => match b with | .ping t' => t' | _ => t) first

/-- When the other end last heard of it. -/
def lastHeard (first : ℤ) (beats : List Beat) : ℤ :=
  beats.foldl (fun t b => match b with | .hear t' => t' | _ => t) first

/-- The pings since the other end last heard of it. -/
def unheard (beats : List Beat) : List ℤ :=
  beats.foldl
    (fun ts b => match b with | .ping t => ts ++ [t] | .hear _ => [] | _ => ts) []

/-- **In time**: the clock does not go back, the last look at it was not long ago, and whatever
was pinged longer ago has been heard of. -/
structure OnTime (began : ℤ) (period delay : ℕ) (past : List Beat) (now : ℤ) : Prop where
  began_le : began ≤ now
  clock : ∀ b ∈ past, b.time ≤ now
  ticked : now - began ≤ period ∨ ∃ b ∈ past, b.isTick = true ∧ now - b.time ≤ period
  heard : ∀ t ∈ unheard past, now - t ≤ delay

/-- Each beat comes in time. -/
def Punctual (began : ℤ) (period delay : ℕ) (beats : List Beat) : Prop :=
  ∀ (i : ℕ) (hi : i < beats.length), OnTime began period delay (beats.take i) beats[i].time

variable {first began now interval : ℤ} {period delay : ℕ} {past : List Beat} {b : Beat}

theorem onTime_iff : OnTime began period delay past now ↔ began ≤ now ∧ (∀ b ∈ past, b.time ≤ now) ∧
    (now - began ≤ period ∨ ∃ b ∈ past, b.isTick = true ∧ now - b.time ≤ period) ∧
      ∀ t ∈ unheard past, now - t ≤ delay :=
  ⟨fun h => ⟨h.1, h.2, h.3, h.4⟩, fun h => ⟨h.1, h.2.1, h.2.2.1, h.2.2.2⟩⟩

instance : Decidable (OnTime began period delay past now) := decidable_of_iff _ onTime_iff.symm

instance (beats : List Beat) : Decidable (Punctual began period delay beats) :=
  inferInstanceAs (Decidable (∀ (i : ℕ) (hi : i < beats.length),
    OnTime began period delay (beats.take i) beats[i].time))

theorem lastPing_append (first : ℤ) (past : List Beat) (b : Beat) :
    lastPing first (past ++ [b]) = match b with | .ping t => t | _ => lastPing first past := by
  rw [lastPing, List.foldl_append]
  cases b with
  | _ => rfl

theorem lastHeard_append (first : ℤ) (past : List Beat) (b : Beat) :
    lastHeard first (past ++ [b]) = match b with | .hear t => t | _ => lastHeard first past := by
  rw [lastHeard, List.foldl_append]
  cases b with
  | _ => rfl

theorem unheard_append (past : List Beat) (b : Beat) :
    unheard (past ++ [b]) =
      match b with | .ping t => unheard past ++ [t] | .hear _ => [] | _ => unheard past := by
  rw [unheard, List.foldl_append]
  cases b with
  | _ => rfl

/-- The beats before the last one are in time, and so is that one. -/
theorem Punctual.append (h : Punctual began period delay (past ++ [b])) :
    Punctual began period delay past ∧ OnTime began period delay past b.time := by
  constructor
  · intro i hi
    have hbeat := h i (by rw [List.length_append]; omega)
    rwa [List.take_append_of_le_length hi.le, List.getElem_append_left hi] at hbeat
  · have hbeat := h past.length (by simp)
    rwa [List.take_left, List.getElem_concat_length rfl] at hbeat

/-- **What such a link keeps**: no look at the clock was longer than the interval after the last
ping, and the other end has heard of the one since, unless that ping, or one before it, is still
on its way; and that one was not sent too late. -/
structure Kept (first firstHeard began interval : ℤ) (period : ℕ) (past : List Beat) : Prop where
  fresh : began - lastPing first past ≤ interval
  pinged : lastPing first past ≤ began ∨ ∃ b ∈ past, lastPing first past = b.time
  ticked : ∀ b ∈ past, b.isTick = true → b.time - lastPing first past ≤ interval
  heard : lastPing first past ≤ lastHeard firstHeard past ∨
    ∃ t ∈ unheard past, t - lastHeard firstHeard past ≤ interval + period

section Kept

variable {firstHeard : ℤ} (h : Kept first firstHeard began interval period past)
  (hnow : OnTime began period delay past now)

include h hnow

theorem Kept.lastPing_le : lastPing first past ≤ now := by
  rcases h.pinged with hbegan | ⟨b, hb, heq⟩
  · exact hbegan.trans hnow.began_le
  · exact heq.trans_le (hnow.clock b hb)

theorem Kept.sub_lastPing_le : now - lastPing first past ≤ interval + period := by
  rcases hnow.ticked with hyoung | ⟨b, hb, htick, hlate⟩
  · have := h.fresh
    omega
  · have := h.ticked b hb htick
    omega

/-- **The other end has had news**, not longer ago than the interval, the period and the delay. A
timeout that is longer than the three together does not fire. -/
theorem Kept.sub_lastHeard_le : now - lastHeard firstHeard past ≤ interval + period + delay := by
  rcases h.heard with hheard | ⟨t, ht, hsent⟩
  · have := h.sub_lastPing_le hnow
    omega
  · have := hnow.heard t ht
    omega

/-- **Every beat in time keeps it so**, if the one end does not look at its clock without a ping
when one is due. A link keeps it along a run by this, one beat after another. -/
theorem Kept.append (hinterval : 0 ≤ interval) {b : Beat} (hb : b.time = now)
    (hidle : ∀ t, b = .tick t → t - lastPing first past ≤ interval) :
    Kept first firstHeard began interval period (past ++ [b]) := by
  have hping := h.lastPing_le hnow
  have hlast := h.sub_lastPing_le hnow
  -- a beat that is no ping leaves what was said of the earlier ones
  have hearlier (hsame : lastPing first (past ++ [b]) = lastPing first past) :
      began - lastPing first (past ++ [b]) ≤ interval ∧
        (lastPing first (past ++ [b]) ≤ began ∨
          ∃ b' ∈ past ++ [b], lastPing first (past ++ [b]) = b'.time) := by
    rw [hsame]
    exact ⟨h.fresh, h.pinged.imp_right fun ⟨b', hb', heq⟩ => ⟨b', List.mem_append_left _ hb', heq⟩⟩
  have hticks (hsame : lastPing first (past ++ [b]) = lastPing first past)
      (hb : b.isTick = true → b.time - lastPing first past ≤ interval) :
      ∀ b' ∈ past ++ [b], b'.isTick = true → b'.time - lastPing first (past ++ [b]) ≤ interval := by
    intro b' hb' htick
    rw [hsame]
    rcases List.mem_append.mp hb' with hb' | hb'
    · exact h.ticked b' hb' htick
    · cases List.mem_singleton.mp hb'
      exact hb htick
  cases b with
  | ping t =>
    obtain rfl : t = now := hb
    have hsame : lastPing first (past ++ [.ping t]) = t := lastPing_append ..
    refine ⟨?_, Or.inr ⟨.ping t, by simp, hsame⟩, fun b' hb' _ => ?_, Or.inr ?_⟩
    · have := hnow.began_le
      rw [hsame]
      omega
    · have hle : b'.time ≤ t := by
        rcases List.mem_append.mp hb' with hb' | hb'
        · exact hnow.clock b' hb'
        · exact (congrArg Beat.time (List.mem_singleton.mp hb')).le
      rw [hsame]
      omega
    · rw [lastHeard_append, unheard_append]
      rcases h.heard with hheard | ⟨t', ht', hsent⟩
      · exact ⟨t, by simp, by dsimp only; omega⟩
      · exact ⟨t', List.mem_append_left _ ht', hsent⟩
  | tick t =>
    have hsame := lastPing_append first past (.tick t)
    obtain ⟨hfresh, hpinged⟩ := hearlier hsame
    refine ⟨hfresh, hpinged, hticks hsame fun _ => hidle t rfl, ?_⟩
    rw [hsame, lastHeard_append, unheard_append]
    exact h.heard
  | hear t =>
    obtain rfl : t = now := hb
    have hsame := lastPing_append first past (.hear t)
    obtain ⟨hfresh, hpinged⟩ := hearlier hsame
    refine ⟨hfresh, hpinged, hticks hsame (by rintro ⟨⟩), Or.inl ?_⟩
    rw [hsame, lastHeard_append]
    exact hping
  | pass t =>
    have hsame := lastPing_append first past (.pass t)
    obtain ⟨hfresh, hpinged⟩ := hearlier hsame
    refine ⟨hfresh, hpinged, hticks hsame (by rintro ⟨⟩), ?_⟩
    rw [hsame, lastHeard_append, unheard_append]
    exact h.heard

end Kept

/-- A link that has just begun is kept so. -/
theorem kept_nil {firstHeard : ℤ} (hfresh : began - first ≤ interval) (hpinged : first ≤ began)
    (hheard : first ≤ firstHeard) : Kept first firstHeard began interval period [] where
  fresh := hfresh
  pinged := Or.inl hpinged
  ticked _ hb := by cases hb
  heard := Or.inl hheard

end Heartbeat
