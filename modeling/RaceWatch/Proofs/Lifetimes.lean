import RaceWatch.Proofs.Flagged

/-!
The lifetimes of entries. An entry lasts from the moment its location comes to be monitored
until the location is forgotten, and then its record is dropped. Every race that was ever
counted stands either in a record that was dropped or in one that is still kept, so the
total of a detector is what all these records count together.
-/

namespace RaceWatch

namespace Detector

variable {rule : Rule} {K : Nat} {d d' : Detector rule K} {config : Config} {tag : Nat}
  {x y : Address}

/-- The addresses that have an entry. -/
def monitored (d : Detector rule K) : Finset Address := d.shadow.entries.keys.toFinset

theorem mem_monitored : x ∈ d.monitored ↔ (d.entryAt? x).isSome = true := by
  rw [monitored, List.mem_toFinset, Std.ExtTreeMap.mem_keys, Std.ExtTreeMap.mem_iff_isSome_getElem?]
  rfl

theorem raceCount_of_not_mem (h : x ∉ d.monitored) : d.raceCount x = 0 := by
  rw [mem_monitored, Bool.not_eq_true, Option.isSome_eq_false_iff, Option.isNone_iff_eq_none] at h
  rw [raceCount, races?, h]
  rfl

/-- The number of races counted in the records that are kept. -/
def keptRaces (d : Detector rule K) : Nat := ∑ x ∈ d.monitored, d.raceCount x

theorem keptRaces_eq_sum {s : Finset Address} (h : d.monitored ⊆ s) :
    d.keptRaces = ∑ x ∈ s, d.raceCount x :=
  Finset.sum_subset h fun _ _ => raceCount_of_not_mem

/-- If the counts differ at one address, the sums differ as these two do. -/
theorem keptRaces_add_raceCount (h : ∀ x, x ≠ y → d'.raceCount x = d.raceCount x) :
    d'.keptRaces + d.raceCount y = d.keptRaces + d'.raceCount y := by
  let s := insert y (d.monitored ∪ d'.monitored)
  have hs : d.monitored ⊆ s := Finset.subset_union_left.trans (Finset.subset_insert _ _)
  have hs' : d'.monitored ⊆ s := Finset.subset_union_right.trans (Finset.subset_insert _ _)
  have hy : y ∈ s := Finset.mem_insert_self _ _
  have hrest : ∑ x ∈ s.erase y, d'.raceCount x = ∑ x ∈ s.erase y, d.raceCount x :=
    Finset.sum_congr rfl fun x hx => h x (Finset.ne_of_mem_erase hx)
  have hsum := Finset.add_sum_erase s d.raceCount hy
  have hsum' := Finset.add_sum_erase s d'.raceCount hy
  rw [keptRaces_eq_sum hs, keptRaces_eq_sum hs']
  omega

/-! ### Records that are dropped -/

/-- The record that an operation drops. -/
def drops? (d : Detector rule K) : Op Handle → Option RaceRecord
  | .forget x => d.races? x
  | .start | .fork .. | .join .. | .exit _ | .acquire .. | .release .. | .forgetLock _ | .access ..
  | .init _ => none

/-- The records that some operations drop, in order. -/
def dropped (d : Detector rule K) : List (Op Handle) → List RaceRecord
  | [] => []
  | op :: rest => (d.drops? op).toList ++ (d.step op).state.dropped rest

/-- What an operation adds to the total it adds to a record that is kept, and what it takes
from the records that are kept it drops. -/
theorem Placed.totalRaces_step (hd : d.Placed) (op : Op Handle) :
    (d.step op).state.totalRaces + d.keptRaces = d.totalRaces + (d.step op).state.keptRaces +
      ((d.drops? op).toList.map (·.count)).sum := by
  obtain ⟨t, a, rfl⟩ | hne := op.access_or_ne
  · have hother (x : Address) (hx : x ≠ a.address) :
        (d.step (.access t a)).state.raceCount x = d.raceCount x := by
      rw [raceCount_eq, raceCount_eq, entryOf_access_of_ne d t hx]
    have hkept := keptRaces_add_raceCount hother
    have htotal := hd.totalRaces_access t a
    simp only [drops?, Option.toList_none, List.map_nil, List.sum_nil]
    omega
  · rw [totalRaces_step_of_ne_access _ hne]
    by_cases hforget : ∃ y, op = .forget y
    · obtain ⟨y, rfl⟩ := hforget
      have hother (x : Address) (hx : x ≠ y) :
          (d.step (.forget y)).state.raceCount x = d.raceCount x := by
        rw [raceCount_eq, raceCount_eq, entryOf_step _ hne, if_neg (by simpa using Ne.symm hx)]
      have hzero : (d.step (.forget y)).state.raceCount y = 0 := by
        rw [raceCount_eq, entryOf_step _ hne, if_pos rfl]
        rfl
      have hdrops : ((d.races? y).toList.map (·.count)).sum = d.raceCount y := by
        rw [raceCount]
        cases d.races? y <;> simp
      have hkept := keptRaces_add_raceCount hother
      rw [drops?, hdrops]
      omega
    · have hsame (x : Address) : (d.step op).state.raceCount x = d.raceCount x := by
        rw [raceCount_eq, raceCount_eq, entryOf_step _ hne,
          if_neg fun hop => hforget ⟨x, hop⟩]
      have hdrops : d.drops? op = none := by
        cases op with
        | forget x => exact absurd ⟨x, rfl⟩ hforget
        | start | fork | join | exit | acquire | release | forgetLock | access | init => rfl
      have hkept := keptRaces_add_raceCount (y := 0) fun x _ => hsame x
      rw [hsame] at hkept
      rw [hdrops]
      simp only [Option.toList_none, List.map_nil, List.sum_nil]
      omega

theorem Placed.totalRaces_add_keptRaces (hd : d.Placed) (ops : List (Op Handle)) :
    (d.run ops).totalRaces + d.keptRaces = d.totalRaces + (d.run ops).keptRaces +
      ((d.dropped ops).map (·.count)).sum := by
  induction ops generalizing d with
  | nil => rfl
  | cons op rest ih =>
    have hstep := hd.totalRaces_step op
    have hrest := ih (hd.step op)
    have hrun : d.run (op :: rest) = (d.step op).state.run rest := rfl
    rw [hrun, dropped, List.map_append, List.sum_append]
    omega

/-- The total counts what is kept and what was dropped. -/
theorem totalRaces_run (h : create rule K config tag = .ok d) (ops : List (Op Handle)) :
    (d.run ops).totalRaces = (d.run ops).keptRaces + ((d.dropped ops).map (·.count)).sum := by
  have hrun := (placed_create h).totalRaces_add_keptRaces ops
  have hnone : d.monitored = ∅ := by
    obtain ⟨-, rfl⟩ := create_eq_ok h
    refine Finset.eq_empty_of_forall_notMem fun x hx => ?_
    simp [mem_monitored, entryAt?] at hx
  have htotal : d.totalRaces = 0 := by
    obtain ⟨-, rfl⟩ := create_eq_ok h
    rfl
  rw [keptRaces, hnone, Finset.sum_empty, htotal] at hrun
  omega

end Detector

end RaceWatch
