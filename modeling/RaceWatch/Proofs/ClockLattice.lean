import RaceWatch.Proofs.Clock

/-!
Clocks form a semilattice. What happened before is a partial order, and merging two clocks
takes the least clock that both of them happened before. An epoch is known to a merged clock
exactly if one of the two clocks knows of it.
-/

namespace RaceWatch

namespace VectorClock

variable {K : Nat} {a b c : VectorClock K}

/-! ### One pass over the coordinates -/

theorem length_toList (c : VectorClock K) : c.toList.length = K := by
  simp [toList]

theorem getElem_toList (c : VectorClock K) (i : Fin K) (h : i.val < c.toList.length) :
    c.toList[i.val] = c.coords[i] := by
  simp [toList]

/-- Two clocks are compared by one pass over their coordinates. -/
theorem le_iff_all_zip :
    a ≤ b ↔ (a.toList.zip b.toList).all (fun p => decide (p.1 ≤ p.2)) = true := by
  have hlength : (a.toList.zip b.toList).length = K := by
    rw [List.length_zip, length_toList, length_toList, Nat.min_self]
  rw [List.all_eq_true, le_def]
  constructor
  · intro h p hp
    obtain ⟨i, hi, rfl⟩ := List.mem_iff_getElem.mp hp
    obtain ⟨i, rfl⟩ : ∃ j : Fin K, j.val = i := ⟨⟨i, hlength ▸ hi⟩, rfl⟩
    rw [List.getElem_zip, getElem_toList, getElem_toList]
    exact decide_eq_true (h i)
  · intro h i
    have hi : i.val < (a.toList.zip b.toList).length := by
      rw [hlength]
      exact i.isLt
    have hpair := h _ (List.getElem_mem hi)
    rw [List.getElem_zip, getElem_toList, getElem_toList] at hpair
    exact of_decide_eq_true hpair

/-- Two clocks are merged by one pass over their coordinates, which replaces those that are
smaller than in the other clock. -/
theorem toList_merge (a b : VectorClock K) :
    (a.merge b).toList =
      List.zipWith (fun mine other => if mine < other then other else mine) a.toList b.toList := by
  refine List.ext_getElem (by simp [length_toList]) fun i hi _ => ?_
  obtain ⟨i, rfl⟩ : ∃ j : Fin K, j.val = i := ⟨⟨i, length_toList (a.merge b) ▸ hi⟩, rfl⟩
  rw [List.getElem_zipWith, getElem_toList, getElem_toList, getElem_toList, coords_merge]
  split
  · next hlt => exact Nat.max_eq_right hlt.le
  · next hle => exact Nat.max_eq_left (Nat.le_of_not_lt hle)

/-! ### Merging -/

theorem merge_le (ha : a ≤ c) (hb : b ≤ c) : a.merge b ≤ c := by
  rw [le_iff_time] at ha hb ⊢
  intro t
  rw [time_merge]
  exact Nat.max_le.mpr ⟨ha t, hb t⟩

instance : SemilatticeSup (VectorClock K) where
  sup := merge
  le_sup_left := le_merge_left
  le_sup_right := le_merge_right
  sup_le _ _ _ := merge_le

/-- Merging a clock into an earlier one gives the later one. -/
theorem merge_eq_right (h : a ≤ b) : a.merge b = b :=
  sup_eq_right.mpr h

theorem isLUB_merge (a b : VectorClock K) : IsLUB {a, b} (a.merge b) := isLUB_pair

/-! ### Concurrent clocks -/

theorem concurrent_iff : a.Concurrent b ↔ IncompRel (· ≤ ·) a b := Iff.rfl

theorem Concurrent.symm (h : a.Concurrent b) : b.Concurrent a := ⟨h.2, h.1⟩

theorem not_concurrent_self (a : VectorClock K) : ¬ a.Concurrent a := fun h => h.1 le_rfl

end VectorClock

namespace Epoch

open VectorClock

variable {K : Nat} {e : Epoch} {a b : VectorClock K}

/-- Comparing an epoch with a clock gives an answer if the clock has a coordinate for its
thread, or if it has no thread. -/
theorem happenedBefore_eq_true (h : e.thread ≤ K) (c : VectorClock K) :
    e.happenedBefore c = .ok true ↔ e.KnownTo c := by
  rw [happenedBefore_eq h, Except.ok.injEq, decide_eq_true_eq]

theorem KnownTo.mono (h : e.KnownTo a) (hab : a ≤ b) : e.KnownTo b :=
  h.imp_right fun hclock => hclock.trans (time_mono hab _)

theorem knownTo_merge : e.KnownTo (a.merge b) ↔ e.KnownTo a ∨ e.KnownTo b := by
  constructor
  · rintro (h0 | hclock)
    · exact .inl (.inl h0)
    · rw [time_merge] at hclock
      exact (le_max_iff.mp hclock).imp .inr .inr
  · rintro (h | h)
    · exact h.mono (le_merge_left a b)
    · exact h.mono (le_merge_right a b)

end Epoch

namespace VectorClock

/-- The laws of clocks. Clocks are compared and merged by one pass over their coordinates. What
happened before is a partial order on them, clocks are concurrent if they are incomparable, and
merging takes the least upper bound. An epoch that has no thread, or one with a coordinate, can
be compared with every clock. What knows of it is closed upwards, and a merged clock knows of it
exactly if one of the two does. -/
theorem clock_laws (K : Nat) :
    (∀ a b : VectorClock K,
      (a ≤ b ↔ (a.toList.zip b.toList).all (fun p => decide (p.1 ≤ p.2)) = true) ∧
      (a.merge b).toList = List.zipWith (fun mine other => if mine < other then other else mine)
        a.toList b.toList) ∧
    (∀ a : VectorClock K, a ≤ a) ∧
    (∀ a b c : VectorClock K, a ≤ b → b ≤ c → a ≤ c) ∧
    (∀ a b : VectorClock K, a ≤ b → b ≤ a → a = b) ∧
    (∀ a b : VectorClock K, (a.Concurrent b ↔ IncompRel (· ≤ ·) a b) ∧
      (a.Concurrent b → b.Concurrent a) ∧ ¬ a.Concurrent a) ∧
    (∀ a b : VectorClock K, IsLUB {a, b} (a.merge b)) ∧
    (∀ a b c : VectorClock K, a.merge b = b.merge a ∧
      (a.merge b).merge c = a.merge (b.merge c) ∧ a.merge a = a) ∧
    (∀ e : Epoch, e.thread ≤ K → ∀ a b : VectorClock K,
      (∃ known, e.happenedBefore a = .ok known) ∧
      (a ≤ b → e.happenedBefore a = .ok true → e.happenedBefore b = .ok true) ∧
      (e.happenedBefore (a.merge b) = .ok true ↔
        e.happenedBefore a = .ok true ∨ e.happenedBefore b = .ok true)) := by
  refine ⟨fun a b => ⟨le_iff_all_zip, toList_merge a b⟩, fun a => le_rfl,
    fun a b c hab hbc => hab.trans hbc, fun a b hab hba => hab.antisymm hba,
    fun a b => ⟨concurrent_iff, Concurrent.symm, not_concurrent_self a⟩, isLUB_merge,
    fun a b c => ⟨sup_comm a b, sup_assoc a b c, sup_idem a⟩, fun e he a b => ⟨?_, ?_, ?_⟩⟩
  · exact ⟨_, Epoch.happenedBefore_eq he a⟩
  · intro hab ha
    rw [Epoch.happenedBefore_eq_true he] at ha ⊢
    exact ha.mono hab
  · simp only [Epoch.happenedBefore_eq_true he]
    exact Epoch.knownTo_merge

/-- The second thread's fifth event is known to a merged clock, since one of the two clocks that
were merged knows of it. Neither of them happened before the other. -/
theorem clock_laws_sample :
    (Epoch.pack 2 5).thread ≤ 3 ∧
    (Epoch.pack 2 5).happenedBefore ((ofList [3, 1, 0] : VectorClock 3).merge (ofList [0, 5, 2])) =
      .ok true ∧
    (ofList [3, 1, 0] : VectorClock 3) ≤ (ofList [3, 1, 0]).merge (ofList [0, 5, 2]) ∧
    (ofList [0, 5, 2] : VectorClock 3).Concurrent (ofList [3, 1, 0]) := by
  obtain ⟨-, -, -, -, hconcurrent, hlub, -, hepoch⟩ := clock_laws 3
  have hthread : (Epoch.pack 2 5).thread ≤ 3 := by decide
  refine ⟨hthread, ?_, ?_, ?_⟩
  · exact (hepoch _ hthread _ _).2.2.mpr (.inr (by decide))
  · exact (hlub _ _).1 (Set.mem_insert _ _)
  · exact (hconcurrent _ _).2.1 (by decide)

end VectorClock

end RaceWatch
