import RaceWatch.Thread
import Mathlib

/-!
Clocks and epochs by threads instead of coordinates. A clock assigns to every thread
the latest time of that thread it knows of, and each operation on clocks is described
by what it does to these times. A thread that fits the clock has a coordinate, so
that setting or ticking it goes through. All others stay at time 0.
-/

namespace RaceWatch

namespace VectorClock

variable {K : Nat}

/-- Whether a thread has a coordinate in clocks of a size. -/
def Fits (K t : Nat) : Prop := t ≠ noThread ∧ t ≤ K

theorem Fits.slot?_eq {t : Nat} (h : Fits K t) : ∃ i : Fin K, slot? K t = some i := by
  cases hs : slot? K t with
  | some i => exact ⟨i, rfl⟩
  | none =>
    obtain ht | ht := slot?_eq_none.mp hs
    · exact absurd ht h.1
    · exact absurd h.2 (Nat.not_le_of_lt ht)

theorem fits_ownerOf (i : Fin K) : Fits K (ownerOf i) :=
  ⟨Nat.succ_ne_zero _, i.isLt⟩

theorem get?_eq_some_time {t : Nat} (h : Fits K t) (c : VectorClock K) :
    c.get? t = some (c.time t) := by
  obtain ⟨i, hi⟩ := h.slot?_eq
  simp [time, get?, hi]

theorem time_eq_zero {t : Nat} (h : ¬ Fits K t) (c : VectorClock K) : c.time t = 0 := by
  have hs : slot? K t = none := by
    rw [slot?_eq_none]
    by_contra hc
    obtain ⟨h0, hK⟩ := not_or.mp hc
    exact h ⟨h0, Nat.le_of_not_lt hK⟩
  simp [time, get?, hs]

theorem fits_of_time_pos {c : VectorClock K} {t : Nat} (h : 0 < c.time t) : Fits K t := by
  by_contra hf
  rw [time_eq_zero hf] at h
  exact Nat.lt_irrefl 0 h

@[simp] theorem time_zero (t : Nat) : (zero : VectorClock K).time t = 0 := by
  by_cases h : Fits K t
  · obtain ⟨i, hi⟩ := h.slot?_eq
    rw [time_of_slot? hi, coords_zero]
  · exact time_eq_zero h _

@[simp] theorem time_merge (a b : VectorClock K) (t : Nat) :
    (a.merge b).time t = max (a.time t) (b.time t) := by
  by_cases h : Fits K t
  · obtain ⟨i, hi⟩ := h.slot?_eq
    rw [time_of_slot? hi, time_of_slot? hi, time_of_slot? hi, coords_merge]
  · rw [time_eq_zero h, time_eq_zero h, time_eq_zero h, Nat.max_self]

theorem le_iff_time {a b : VectorClock K} : a ≤ b ↔ ∀ t, a.time t ≤ b.time t := by
  constructor
  · intro h t
    by_cases ht : Fits K t
    · obtain ⟨i, hi⟩ := ht.slot?_eq
      rw [time_of_slot? hi, time_of_slot? hi]
      exact h i
    · rw [time_eq_zero ht, time_eq_zero ht]
  · intro h i
    have := h (ownerOf i)
    rwa [time_ownerOf, time_ownerOf] at this

/-! ### The order of clocks -/

instance : PartialOrder (VectorClock K) where
  le_refl a := le_def.mpr fun _ => Nat.le_refl _
  le_trans a b c hab hbc := le_def.mpr fun i => Nat.le_trans (hab i) (hbc i)
  le_antisymm a b hab hba := ext fun i => Nat.le_antisymm (hab i) (hba i)

theorem time_mono {a b : VectorClock K} (h : a ≤ b) (t : Nat) : a.time t ≤ b.time t :=
  le_iff_time.mp h t

theorem le_merge_left (a b : VectorClock K) : a ≤ a.merge b :=
  le_iff_time.mpr fun t => by rw [time_merge]; exact Nat.le_max_left _ _

theorem le_merge_right (a b : VectorClock K) : b ≤ a.merge b :=
  le_iff_time.mpr fun t => by rw [time_merge]; exact Nat.le_max_right _ _

/-! ### Writing one coordinate -/

theorem time_put {t : Nat} {i : Fin K} (h : slot? K t = some i) (c : VectorClock K)
    (value u : Nat) : (c.put i value).time u = if u = t then value else c.time u := by
  by_cases hu : Fits K u
  · obtain ⟨j, hj⟩ := hu.slot?_eq
    rw [time_of_slot? hj, time_of_slot? hj, coords_put]
    have : i = j ↔ u = t := by
      rw [slot?_eq_some.mp h, slot?_eq_some.mp hj, ownerOf, ownerOf, Fin.ext_iff]
      omega
    simp only [this]
  · have hut : u ≠ t := by
      rintro rfl
      rw [slot?_eq_some.mp h] at hu
      exact hu (fits_ownerOf i)
    rw [time_eq_zero hu, time_eq_zero hu, if_neg hut]

theorem set_eq_ok {t : Nat} (h : Fits K t) (c : VectorClock K) (value : Nat) :
    ∃ c', c.set t value = .ok c' ∧ ∀ u, c'.time u = if u = t then value else c.time u := by
  obtain ⟨i, hi⟩ := h.slot?_eq
  exact ⟨c.put i value, by simp [set, hi], time_put hi c value⟩

/-- The clock with the time of one thread advanced by one. -/
def advance (c : VectorClock K) (t : Nat) : VectorClock K :=
  (slot? K t).elim c fun i => c.put i (c.time t + 1)

theorem time_advance {t : Nat} (h : Fits K t) (c : VectorClock K) (u : Nat) :
    (c.advance t).time u = if u = t then c.time t + 1 else c.time u := by
  obtain ⟨i, hi⟩ := h.slot?_eq
  rw [advance, hi, Option.elim_some, time_put hi]

theorem time_advance_self {t : Nat} (h : Fits K t) (c : VectorClock K) :
    (c.advance t).time t = c.time t + 1 := by
  rw [time_advance h, if_pos rfl]

theorem time_advance_of_ne {t u : Nat} (h : u ≠ t) (c : VectorClock K) :
    (c.advance t).time u = c.time u := by
  by_cases ht : Fits K t
  · rw [time_advance ht, if_neg h]
  · have hs : slot? K t = none := by
      cases hs : slot? K t with
      | none => rfl
      | some i => exact absurd (slot?_eq_some.mp hs ▸ fits_ownerOf i) ht
    simp [advance, hs]

theorem le_advance (c : VectorClock K) (t : Nat) : c ≤ c.advance t := by
  refine le_iff_time.mpr fun u => ?_
  by_cases hu : u = t
  · subst hu
    by_cases hf : Fits K u
    · rw [time_advance_self hf]
      exact Nat.le_succ _
    · rw [time_eq_zero hf]
      exact Nat.zero_le _
  · rw [time_advance_of_ne hu]

/-- A coordinate is advanced unless an epoch could not follow it. -/
theorem increment_eq {t : Nat} (h : Fits K t) (c : VectorClock K) :
    c.increment t =
      if Epoch.maxClock ≤ c.time t then .error (.clockOverflow t (c.time t))
      else .ok (c.time t + 1, c.advance t) := by
  obtain ⟨i, hi⟩ := h.slot?_eq
  simp only [increment, advance, hi, time_of_slot? hi, Option.elim_some]

end VectorClock

namespace Epoch

variable {K : Nat}

/-- Whether a clock knows of the point that an epoch names. -/
def KnownTo (e : Epoch) (c : VectorClock K) : Prop :=
  e.thread = noThread ∨ e.clock ≤ c.time e.thread

instance (e : Epoch) (c : VectorClock K) : Decidable (e.KnownTo c) :=
  inferInstanceAs (Decidable (_ ∨ _))

/-- Comparing an epoch with a clock decides whether the clock knows of it. -/
theorem happenedBefore_eq {e : Epoch} (h : e.thread ≤ K) (c : VectorClock K) :
    e.happenedBefore c = .ok (decide (e.KnownTo c)) := by
  by_cases h0 : e.thread = noThread
  · simp [happenedBefore, KnownTo, h0]
  · simp [happenedBefore, KnownTo, h0, VectorClock.get?_eq_some_time ⟨h0, h⟩ c]

theorem knownTo_pack {t v : Nat} (h : VectorClock.Fits K t) (hK : K ≤ maxThread)
    (hv : v ≤ maxClock) (c : VectorClock K) : (pack t v).KnownTo c ↔ v ≤ c.time t := by
  rw [KnownTo, thread_pack (h.2.trans hK) hv, clock_pack (h.2.trans hK) hv]
  exact or_iff_right h.1

end Epoch

namespace ThreadState

variable {K : Nat}

/-- The thread in its next event. -/
def next (s : ThreadState K) : ThreadState K :=
  { s with clock := s.clock.advance s.id, epoch := Epoch.pack s.id (s.clock.time s.id + 1) }

/-- A tick begins the next event, unless the thread has used up all its clock
values. -/
theorem tick_eq {s : ThreadState K} (h : VectorClock.Fits K s.id) (hK : K ≤ maxThread) :
    s.tick =
      if Epoch.maxClock ≤ s.clock.time s.id then
        .error (.error (.clockOverflow s.id (s.clock.time s.id)))
      else .ok s.next := by
  rw [tick, VectorClock.increment_eq h]
  by_cases hmax : Epoch.maxClock ≤ s.clock.time s.id
  · rw [if_pos hmax, if_pos hmax]
    rfl
  · have hpack := Epoch.construct_eq_pack (h.2.trans hK) (Nat.lt_of_not_le hmax)
    rw [if_neg hmax, if_neg hmax]
    simp [Except.mapError, bind, Except.bind, epochAt, hpack, next, pure, Except.pure]

/-- A thread in its first event. -/
def first (id : Nat) : ThreadState K :=
  ⟨id, VectorClock.zero.advance id, Epoch.pack id 1, false⟩

theorem fresh_eq {id : Nat} (h : VectorClock.Fits K id) (hK : K ≤ maxThread) :
    fresh id = .ok (first id : ThreadState K) := by
  obtain ⟨i, hi⟩ := h.slot?_eq
  have hpack : Epoch.construct id 1 = .ok (Epoch.pack id 1) :=
    Epoch.construct_eq_pack (h.2.trans hK) (by decide)
  simp [fresh, first, VectorClock.set, VectorClock.advance, hi, Except.mapError, bind,
    Except.bind, epochAt, hpack, pure, Except.pure]

end ThreadState

end RaceWatch
