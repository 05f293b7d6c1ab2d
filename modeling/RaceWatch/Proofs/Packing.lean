import RaceWatch.Proofs.Bookkeeping

/-!
An epoch as a word of 64 bits. A thread takes the high byte and a clock value all other bits.
Every word is the epoch of one thread at one clock value, and no two threads and no two clock
values share a word, so nothing is lost by packing. What does not fit loses its high bits and
passes for something else, unless debug assertions refuse it. The numbers of a detector fit.
-/

namespace RaceWatch

namespace Epoch

variable {t c : Nat} {e a b : Epoch}

/-! ### The bits of a word -/

/-- The clock value of an epoch is what the mask leaves of the word. -/
theorem toNat_mask (e : Epoch) : (e.word &&& clockMask).toNat = e.clock :=
  toNat_and_clockMask e.word

/-- The thread of an epoch is what is left once the clock value is shifted out of the word. -/
theorem toNat_shift (e : Epoch) : (e.word >>> 56).toNat = e.thread := by
  rw [UInt64.toNat_shiftRight, Nat.shiftRight_eq_div_pow]
  rfl

theorem toNat_word (e : Epoch) : e.word.toNat = e.thread * clockSpan + e.clock :=
  (Nat.div_add_mod' _ _).symm

/-! ### What fits and what does not -/

theorem construct_eq_error_thread : construct t c = .error .thread ↔ maxThread < t := by
  simp only [construct, constructIn, true_and]
  split_ifs <;> simp_all

theorem construct_eq_error_clock :
    construct t c = .error .clock ↔ t ≤ maxThread ∧ maxClock < c := by
  simp only [construct, constructIn, true_and]
  split_ifs <;> simp_all

/-- Whatever is packed fits. -/
theorem fits_of_construct (h : construct t c = .ok e) : t ≤ maxThread ∧ c ≤ maxClock := by
  have ht : t ≤ maxThread := by
    refine Nat.le_of_not_lt fun hlt => ?_
    simp [construct_eq_error_thread.mpr hlt] at h
  have hc : c ≤ maxClock := by
    refine Nat.le_of_not_lt fun hlt => ?_
    simp [construct_eq_error_clock.mpr ⟨ht, hlt⟩] at h
  exact ⟨ht, hc⟩

/-- An epoch is made of its own thread and clock value, and of nothing else. -/
theorem construct_eq_ok : construct t c = .ok e ↔ e.thread = t ∧ e.clock = c := by
  constructor
  · intro h
    obtain ⟨ht, hc⟩ := fits_of_construct h
    obtain rfl := Except.ok.inj ((construct_eq_pack ht hc).symm.trans h)
    exact ⟨thread_pack ht hc, clock_pack ht hc⟩
  · rintro ⟨rfl, rfl⟩
    rw [construct_eq_pack e.thread_le e.clock_le, pack_thread_clock]

/-- In every build, what fits is laid out as bits. -/
theorem constructIn_wordOf (build : Build) (ht : t ≤ maxThread) (hc : c ≤ maxClock) :
    constructIn build t c = .ok ⟨wordOf (.ofNat t) (.ofNat c)⟩ :=
  (constructIn_of_fits build ht hc).trans (constructIn_of_fits .release ht hc).symm

/-- A release build packs the remainders, which fit. -/
theorem constructIn_release_eq (t c : Nat) :
    constructIn .release t c = construct (t % (maxThread + 1)) (c % clockSpan) := by
  have ht : t % (maxThread + 1) ≤ maxThread := Nat.le_of_lt_succ (Nat.mod_lt _ (by decide))
  have hc : c % clockSpan ≤ maxClock := Nat.le_of_lt_succ (Nat.mod_lt _ (by decide))
  rw [constructIn_release, construct_eq_pack ht hc]

/-! ### Epochs of one thread -/

theorem word_lt_iff (h : a.thread = b.thread) : a.word < b.word ↔ a.clock < b.clock := by
  rw [UInt64.lt_iff_toNat_lt, toNat_word, toNat_word, h]
  exact Nat.add_lt_add_iff_left

theorem word_eq_iff (h : a.thread = b.thread) : a.word = b.word ↔ a.clock = b.clock := by
  rw [← UInt64.toNat_inj, toNat_word, toNat_word, h]
  exact Nat.add_left_cancel_iff

theorem compare_word (h : a.thread = b.thread) :
    compare a.word b.word = compare a.clock b.clock := by
  simp only [compare, compareOfLessAndEq, word_lt_iff h, word_eq_iff h]

/-! ### The two words that are set aside -/

theorem isEmpty_eq_false (h : e.thread ≠ noThread) : e.isEmpty = false :=
  beq_false_of_ne fun hempty => h (hempty ▸ thread_empty)

end Epoch

/-- Who asks for an epoch that does not fit is unwound. -/
theorem ThreadState.epochAt_of_misfit {t c : Nat} {part : Epoch.Misfit}
    (h : Epoch.construct t c = .error part) : epochAt t c = .error (.panic (.misfit part)) := by
  rw [epochAt, h]
  rfl

namespace Epoch

/-- Packing loses nothing and keeps the order. A thread and a clock value that fit are laid out as
bits, and both are given back. Every word is the epoch of exactly one thread and clock value.
Epochs of one thread compare as their clock values do. The words that are set aside belong to no
thread, at its clock values 1 and 0, so that no epoch of a thread is taken for one of them. The
build makes no difference to numbers that fit. Of those that do not, a debug build refuses first
the thread and then the clock value, by an assertion, while a release build cuts both short. -/
theorem packing_bijective :
    (∀ t c, t ≤ 255 → c < 2 ^ 56 → ∃ e, construct t c = .ok e ∧ e.thread = t ∧ e.clock = c ∧
      e.word = wordOf (.ofNat t) (.ofNat c)) ∧
    (∀ build t c, t ≤ 255 → c < 2 ^ 56 → constructIn build t c = construct t c) ∧
    (∀ e : Epoch, e.thread = (e.word >>> 56).toNat ∧ e.clock = (e.word &&& clockMask).toNat) ∧
    (∀ w : UInt64, ∃! p : Nat × Nat,
      p.1 ≤ 255 ∧ p.2 < 2 ^ 56 ∧ construct p.1 p.2 = .ok ⟨w⟩) ∧
    (∀ t c c' e e', construct t c = .ok e → construct t c' = .ok e' →
      compare e.word e'.word = compare c c') ∧
    (∀ t c, (construct t c = .ok empty ↔ (t, c) = (0, 1)) ∧
      (construct t c = .ok shared ↔ (t, c) = (0, 0))) ∧
    (∀ t c e, 1 ≤ t → construct t c = .ok e → e.isEmpty = false ∧ e.isShared = false) ∧
    (∀ t c, 255 < t → constructIn .debug t c = .error .thread ∧
      ThreadState.epochAt t c = .error (.panic (.misfit .thread))) ∧
    (∀ t c, t ≤ 255 → 2 ^ 56 ≤ c → constructIn .debug t c = .error .clock ∧
      ThreadState.epochAt t c = .error (.panic (.misfit .clock))) ∧
    (∀ t c, constructIn .release t c = construct (t % 256) (c % 2 ^ 56)) := by
  refine ⟨fun t c ht hc => ?_, fun build t c ht hc => ?_,
    fun e => ⟨(toNat_shift e).symm, (toNat_mask e).symm⟩, fun w => ?_,
    fun t c c' e e' he he' => ?_, fun t c => ⟨?_, ?_⟩, fun t c e ht he => ?_, fun t c ht => ?_,
    fun t c ht hc => ?_, constructIn_release_eq⟩
  · have hok : construct t c = .ok _ := constructIn_wordOf .debug ht (Nat.le_of_lt_succ hc)
    obtain ⟨hthread, hclock⟩ := construct_eq_ok.mp hok
    exact ⟨_, hok, hthread, hclock, rfl⟩
  · have hc : c ≤ maxClock := Nat.le_of_lt_succ hc
    rw [constructIn_of_fits build ht hc, construct_eq_pack ht hc]
  · refine ⟨(thread ⟨w⟩, clock ⟨w⟩),
      ⟨thread_le ⟨w⟩, Nat.lt_succ_of_le (clock_le ⟨w⟩), construct_eq_ok.mpr ⟨rfl, rfl⟩⟩, ?_⟩
    rintro ⟨t, c⟩ ⟨-, -, hok⟩
    obtain ⟨rfl, rfl⟩ := construct_eq_ok.mp hok
    rfl
  · obtain ⟨rfl, rfl⟩ := construct_eq_ok.mp he
    obtain ⟨hthread, rfl⟩ := construct_eq_ok.mp he'
    exact compare_word hthread.symm
  · rw [construct_eq_ok, thread_empty, clock_empty, Prod.mk.injEq, eq_comm, @eq_comm _ c]
    rfl
  · rw [construct_eq_ok, thread_shared, clock_shared, Prod.mk.injEq, eq_comm, @eq_comm _ c]
    rfl
  · have hthread : e.thread ≠ noThread := (construct_eq_ok.mp he).1 ▸ Nat.ne_of_gt ht
    exact ⟨isEmpty_eq_false hthread, isShared_eq_false hthread⟩
  · have herror : construct t c = .error .thread := construct_eq_error_thread.mpr ht
    exact ⟨herror, ThreadState.epochAt_of_misfit herror⟩
  · have herror : construct t c = .error .clock :=
      construct_eq_error_clock.mpr ⟨ht, Nat.lt_of_succ_le hc⟩
    exact ⟨herror, ThreadState.epochAt_of_misfit herror⟩

/-- In a release build the first epoch of thread 256, which does not fit, is taken for that of a
location that nobody has touched. So not every build refuses what does not fit, and not in every
build that epoch is made of no thread at clock value 1 only. -/
theorem misfit_taken_for_empty :
    constructIn .release 256 1 = .ok empty ∧
    (¬ ∀ build t c, 255 < t ∨ 2 ^ 56 ≤ c → ∃ part, constructIn build t c = .error part) ∧
    ¬ ∀ build t c, constructIn build t c = .ok empty ↔ (t, c) = (0, 1) := by
  have hempty : constructIn .release 256 1 = .ok empty := constructIn_release 256 1
  refine ⟨hempty, fun h => ?_, fun h => ?_⟩
  · obtain ⟨part, hpart⟩ := h .release 256 1 (.inl (by decide))
    simp [hempty] at hpart
  · exact absurd ((h .release 256 1).mp hempty) (by decide)

/-- The last thread at its last clock value has the last word in every build, and it comes after
that of the clock value before. A debug build has no epoch for the next thread, and none for the
next clock value, where a release build starts anew. -/
theorem packing_last_word :
    (∃ e, constructIn .debug 255 (2 ^ 56 - 1) = .ok e ∧
      constructIn .release 255 (2 ^ 56 - 1) = .ok e ∧ e.thread = 255 ∧ e.clock = 2 ^ 56 - 1 ∧
      e.word = ~~~0) ∧
    compare (pack 255 (2 ^ 56 - 2)).word (pack 255 (2 ^ 56 - 1)).word = .lt ∧
    (pack 255 (2 ^ 56 - 1)).isEmpty = false ∧ (pack 255 (2 ^ 56 - 1)).isShared = false ∧
    constructIn .debug 256 (2 ^ 56) = .error .thread ∧
    constructIn .debug 255 (2 ^ 56) = .error .clock ∧
    constructIn .release 256 (2 ^ 56) = .ok shared := by
  obtain ⟨hfits, hbuild, -, -, horder, -, hmarks, hthread, hclock, hrelease⟩ := packing_bijective
  have hlast : construct 255 (2 ^ 56 - 1) = .ok (pack 255 (2 ^ 56 - 1)) := by decide
  have hbefore : construct 255 (2 ^ 56 - 2) = .ok (pack 255 (2 ^ 56 - 2)) := by decide
  obtain ⟨e, he, ht, hc, hword⟩ := hfits 255 (2 ^ 56 - 1) (by decide) (by decide)
  have he' : constructIn .release 255 (2 ^ 56 - 1) = .ok e :=
    (hbuild .release _ _ (by decide) (by decide)).trans he
  have hones : wordOf (.ofNat 255) (.ofNat (2 ^ 56 - 1)) = ~~~0 := by decide
  obtain ⟨hempty, hshared⟩ := hmarks 255 (2 ^ 56 - 1) _ (by decide) hlast
  refine ⟨⟨e, he, he', ht, hc, hword.trans hones⟩, ?_, hempty, hshared,
    (hthread 256 (2 ^ 56) (by decide)).1, (hclock 255 (2 ^ 56) (by decide) (by decide)).1, ?_⟩
  · rw [horder _ _ _ _ _ hbefore hlast]
    decide
  · rw [hrelease]
    decide

end Epoch

namespace Detector

variable {rule : Rule} {K : Nat} {d : Detector rule K} {config : Config} {tag : Nat}
  {t : Nat} {s : ThreadState K}

/-- After any run, the epoch of a thread is the word of its identity and its own coordinate, in
every build. It is neither of the words that are set aside, and no other thread has it. -/
theorem epoch_told_apart (h : create rule K config tag = .ok d) (ops : List (Op Handle))
    (hs : (d.run ops).state? t = some s) :
    (∀ build, Epoch.constructIn build t (s.clock.time t) = .ok s.epoch) ∧
      s.epoch.word = Epoch.wordOf (.ofNat t) (.ofNat (s.clock.time t)) ∧
      s.epoch ≠ .empty ∧ s.epoch ≠ .shared ∧
      ∀ u s', (d.run ops).state? u = some s' → s'.epoch = s.epoch → u = t := by
  have hsound := sound_run h ops
  have hthread := hsound.threads t s hs
  have ht : t ≤ maxThread := hthread.fits.2.trans hsound.capacity
  have hid : s.epoch.thread = t := hthread.thread_epoch hsound.capacity
  have hpack (build : Epoch.Build) : Epoch.constructIn build t (s.clock.time t) = .ok s.epoch := by
    rw [Epoch.constructIn_of_fits build ht hthread.time_le, hthread.epoch_eq]
  have hword : Except.ok s.epoch = .ok _ :=
    (hpack .release).symm.trans (Epoch.constructIn_wordOf .release ht hthread.time_le)
  refine ⟨hpack, congrArg Epoch.word (Except.ok.inj hword), ?_, ?_, fun u s' hs' heq => ?_⟩
  · intro hempty
    exact hthread.fits.1 (by rw [← hid, hempty, Epoch.thread_empty])
  · intro hshared
    exact hthread.fits.1 (by rw [← hid, hshared, Epoch.thread_shared])
  · rw [← (hsound.threads u s' hs').thread_epoch hsound.capacity, heq, hid]

end Detector

end RaceWatch
