import RaceWatch.Proofs.Visit

/-!
The test of one coordinate agrees with the comparison of two clocks. Who knows of the
event in which an access was made knows all that its thread knew then, so comparing the
epoch of the thread comes to the same as comparing its clock, and both decide whether
the access happened before.
-/

namespace RaceWatch

open VectorClock

namespace ThreadState

variable {K t : Nat} {s : ThreadState K}

/-- The epoch of a thread stands for its own coordinate. -/
theorem Sound.epoch_happenedBefore_iff (h : s.Sound t) (hK : K ≤ maxThread) (c : VectorClock K) :
    s.epoch.happenedBefore c = .ok true ↔ s.clock.time t ≤ c.time t := by
  have hle : s.epoch.thread ≤ K := (h.thread_epoch hK).le.trans h.fits.2
  rw [Epoch.happenedBefore_eq hle, h.epoch_eq]
  simp [Epoch.knownTo_pack h.fits hK h.time_le]

end ThreadState

namespace Detector

variable {rule : Rule} {K : Nat} {d : Detector rule K} {config : Config} {tag : Nat}
  {ops : List (Op Handle)} {i : Nat} {t : Handle} {a : Access}

/-- Right after an access that succeeded, the clock of its thread is the stamp of the
access. -/
theorem exists_state_of_access (h : create rule K config tag = .ok d)
    (hi : (d.chronicle ops)[i]? = some ⟨.access t a, .ok .unit⟩) :
    ∃ s, (d.after ops (i + 1)).state? t.thread = some s ∧ s.Sound t.thread ∧
      s.clock = (d.chronicle ops).stamp rule K i := by
  obtain ⟨hr, hafter⟩ := step_of_getElem? hi
  have hop : ops[i]? = some (.access t a) := by
    rw [getElem?_chronicle, Option.map_eq_some_iff] at hi
    obtain ⟨op, hop, heq⟩ := hi
    rw [hop, (Event.mk.inj heq).1]
  rcases (d.after ops i).access_cases t a with ⟨⟨error, herror⟩, -⟩ | ⟨-, s, checked, hpass⟩
  · rw [← hr] at herror
    exact nomatch herror
  · obtain ⟨f, -, hthread, hc⟩ := checks_of_passes h hop hr.symm hpass
    refine ⟨f.thread, ?_, hc.sound_thread, hc.stamp_eq.symm⟩
    rw [hafter, state?, hpass.registry_eq, hthread,
      Registry.state?_put_of_some hpass.state?_eq hc.sound_thread.id_eq, if_pos rfl]

/-- For an access of one thread and a later access, all that follows comes to the same,
as long as nothing overflows: the later thread knows of the epoch that the first one had
right after its access, the clocks of the two are ordered, and the first access happens
before the later one. For what a lock has published at any later moment, the test of the
epoch and the comparison of the clocks agree too. -/
theorem epoch_test_iff (h : create rule K config tag = .ok d) (ho : (d.chronicle ops).NoOverflow)
    {j : Nat} {u : Handle} {b : Access} (hij : i < j)
    (hi : (d.chronicle ops)[i]? = some ⟨.access t a, .ok .unit⟩)
    (hj : (d.chronicle ops)[j]? = some ⟨.access u b, .ok .unit⟩) :
    ∃ s s', (d.after ops (i + 1)).state? t.thread = some s ∧
      (d.after ops (j + 1)).state? u.thread = some s' ∧
      (s.epoch.happenedBefore s'.clock = .ok true ↔ s.clock ≤ s'.clock) ∧
      (s.clock ≤ s'.clock ↔ (d.chronicle ops).HappensBefore i j) ∧
      ∀ n lock c, i < n → (d.after ops n).lockClock? lock = some c →
        (s.epoch.happenedBefore c = .ok true ↔ s.clock ≤ c) := by
  obtain ⟨s, hs, hsound, hclock⟩ := exists_state_of_access h hi
  obtain ⟨s', hs', -, hclock'⟩ := exists_state_of_access h hj
  have hl := legal_chronicle h ops
  have hK := (sound_create h).capacity
  have hat : (d.chronicle ops).At i ⟨.access t a, .ok .unit⟩ := ⟨hi, rfl⟩
  have hat' : (d.chronicle ops).At j ⟨.access u b, .ok .unit⟩ := ⟨hj, rfl⟩
  refine ⟨s, s', hs, hs', ?_, ?_, fun n lock c hn hc => ?_⟩
  · rw [hsound.epoch_happenedBefore_iff hK, hclock, hclock',
      ← Chronicle.happensBefore_iff_time_le hl ho hat hat' rfl rfl hij,
      Chronicle.happensBefore_iff_stamp_le hl ho hat hat' rfl rfl hij]
  · rw [hclock, hclock', Chronicle.happensBefore_iff_stamp_le hl ho hat hat' rfl rfl hij]
  · have hlock : c = (d.chronicle ops).knownAt rule K n (.lock lock) := by
      rw [← knowledge_after h, knowledge, Knowledge.of, ← lockClock?, hc, Option.getD_some]
    rw [hsound.epoch_happenedBefore_iff hK, hclock, hlock]
    exact Chronicle.time_le_knownAt_iff hl ho hat rfl hn

theorem happensBefore_relay : ((forThree .precise).chronicle relay).HappensBefore 3 6 := by
  have hat3 : ((forThree .precise).chronicle relay)[3]? =
      some ⟨.access ⟨0, 1⟩ ⟨7, .write⟩, .ok .unit⟩ := by
    rw [chronicle_relay]
    rfl
  have hat6 : ((forThree .precise).chronicle relay)[6]? =
      some ⟨.access ⟨0, 2⟩ ⟨7, .write⟩, .ok .unit⟩ := by
    rw [chronicle_relay]
    rfl
  obtain ⟨s, s', hs, hs', -, hiff, -⟩ := epoch_test_iff (create_forThree .precise)
    (noOverflow_relay .precise) (by decide) hat3 hat6
  have hclocks : ∀ s ∈ ((forThree .precise).after relay 4).state? 1,
      ∀ s' ∈ ((forThree .precise).after relay 7).state? 2, s.clock ≤ s'.clock := by
    decide
  exact hiff.mp (hclocks s hs s' hs')

/-- The four sources of order do not suffice. Of two accesses that they leave unordered the
later one knows all that the first one knew. -/
theorem relay_clocks_ordered : ∃ d : Detector .epoch 3, create .epoch 3 .default 0 = .ok d ∧
    (d.chronicle relay).NoOverflow ∧
    (d.chronicle relay)[3]? = some ⟨.access ⟨0, 1⟩ ⟨7, .write⟩, .ok .unit⟩ ∧
    (d.chronicle relay)[6]? = some ⟨.access ⟨0, 2⟩ ⟨7, .write⟩, .ok .unit⟩ ∧
    ∃ s s', (d.after relay 4).state? 1 = some s ∧ (d.after relay 7).state? 2 = some s' ∧
      s.epoch.happenedBefore s'.clock = .ok true ∧ s.clock ≤ s'.clock ∧
      ¬ (d.chronicle relay).Precedes 3 6 := by
  refine ⟨forThree .epoch, create_forThree .epoch, noOverflow_relay .epoch, ?_, ?_, ?_⟩
  · rw [chronicle_relay]
    rfl
  · rw [chronicle_relay]
    rfl
  · refine ⟨_, _, rfl, rfl, ?_, ?_, not_precedes_relay .epoch⟩
    · rfl
    · decide

end Detector

end RaceWatch
