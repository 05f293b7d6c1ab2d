import RaceWatch.Entry
import RaceWatch.Proofs.Clock

/-!
What the check of one access finds out, for a thread that is sound and a history that
only names threads with a coordinate. Such a check goes through. Under the epoch rule it
is described by the last write and by one time for each thread, that of the last read
which is still remembered of it: it does not matter any more whether the reads are kept
in an epoch or in a clock.
-/

namespace RaceWatch

open VectorClock

theorem bind_eq_ok {ε α β : Type} {x : Except ε α} {f : α → Except ε β} {b : β} :
    (x >>= f) = .ok b ↔ ∃ a, x = .ok a ∧ f a = .ok b := by
  cases x <;> simp [bind, Except.bind]

theorem mapError_eq_ok {ε ε' α : Type} {f : ε → ε'} {x : Except ε α} {a : α} :
    x.mapError f = .ok a ↔ x = .ok a := by
  cases x <;> simp [Except.mapError]

/-- What holds of the state of a thread with a given identity. -/
structure ThreadState.Sound {K : Nat} (t : Nat) (s : ThreadState K) : Prop where
  id_eq : s.id = t
  epoch_eq : s.epoch = Epoch.pack t (s.clock.time t)
  time_pos : 0 < s.clock.time t
  time_le : s.clock.time t ≤ Epoch.maxClock

namespace ThreadState

variable {K t : Nat} {s : ThreadState K}

theorem Sound.fits (h : s.Sound t) : Fits K t := fits_of_time_pos h.time_pos

theorem Sound.fits_id (h : s.Sound t) : Fits K s.id := h.id_eq ▸ h.fits

theorem Sound.thread_epoch (h : s.Sound t) (hK : K ≤ maxThread) : s.epoch.thread = t := by
  rw [h.epoch_eq, Epoch.thread_pack (h.fits.2.trans hK) h.time_le]

theorem Sound.clock_epoch (h : s.Sound t) (hK : K ≤ maxThread) :
    s.epoch.clock = s.clock.time t := by
  rw [h.epoch_eq, Epoch.clock_pack (h.fits.2.trans hK) h.time_le]

/-- Learning does not move a thread that nobody knows more of than itself. -/
theorem Sound.observe (h : s.Sound t) {c : VectorClock K} (hc : c.time t ≤ s.clock.time t) :
    (s.observe c).Sound t := by
  have htime : (s.observe c).clock.time t = s.clock.time t := by
    rw [clock_observe, time_merge, Nat.max_eq_left hc]
  exact ⟨h.id_eq, by rw [htime, epoch_observe, h.epoch_eq], by rw [htime]; exact h.time_pos,
    by rw [htime]; exact h.time_le⟩

theorem Sound.next (h : s.Sound t) (hmax : s.clock.time t < Epoch.maxClock) :
    s.next.Sound t := by
  obtain rfl := h.id_eq
  have htime : s.next.clock.time s.id = s.clock.time s.id + 1 := time_advance_self h.fits _
  exact ⟨rfl, by rw [htime]; rfl, by omega, by omega⟩

theorem sound_first (h : Fits K t) : (first t : ThreadState K).Sound t := by
  have htime : (first t : ThreadState K).clock.time t = 1 := by
    rw [first, time_advance_self h, time_zero]
  exact ⟨rfl, by rw [htime]; rfl, by omega, by rw [htime]; decide⟩

theorem Sound.exit (h : s.Sound t) : s.exit.Sound t :=
  ⟨h.id_eq, h.epoch_eq, h.time_pos, h.time_le⟩

/-- A sound thread ticks, or it is at the end of its clock values. -/
theorem Sound.tick_cases (h : s.Sound t) (hK : K ≤ maxThread) :
    (s.clock.time t < Epoch.maxClock ∧ s.tick = .ok s.next) ∨
      ∃ v, s.tick = .error (.error (.clockOverflow t v)) := by
  obtain rfl := h.id_eq
  rw [tick_eq h.fits hK]
  by_cases hmax : Epoch.maxClock ≤ s.clock.time s.id
  · exact .inr ⟨_, if_pos hmax⟩
  · exact .inl ⟨Nat.lt_of_not_le hmax, if_neg hmax⟩

end ThreadState

theorem Epoch.isShared_eq_false {e : Epoch} (h : e.thread ≠ noThread) : e.isShared = false := by
  rw [← Bool.not_eq_true]
  intro hs
  rw [eq_of_beq hs] at h
  exact h Epoch.thread_shared

/-! ### The epoch rule -/

namespace EpochHistory

variable {K : Nat} {h : EpochHistory K} {s : ThreadState K} {t : Nat}

/-- The time of the last read of a thread that is still remembered, 0 if there is
none. -/
def readTime (h : EpochHistory K) (u : Nat) : Nat :=
  if h.read.isShared then h.readClock.time u
  else if u ≠ noThread ∧ h.read.thread = u then h.read.clock else 0

/-- The history names only threads that have a coordinate. -/
structure InRange (h : EpochHistory K) : Prop where
  write_le : h.write.thread ≤ K
  read_le : h.read.thread ≤ K

theorem readTime_of_shared (hs : h.read.isShared = true) (u : Nat) :
    h.readTime u = h.readClock.time u :=
  if_pos hs

theorem readTime_of_epoch (hs : h.read.isShared = false) (u : Nat) :
    h.readTime u = if u ≠ noThread ∧ h.read.thread = u then h.read.clock else 0 := by
  simp [readTime, hs]

theorem readTime_of_empty (hr : h.read = .empty) (u : Nat) : h.readTime u = 0 := by
  rw [readTime_of_epoch (by rw [hr]; rfl), hr]
  exact if_neg fun hc => hc.1 (hc.2.symm.trans Epoch.thread_empty)

/-- A thread that is still in the epoch of the last read. -/
theorem readTime_of_read_eq (hs : s.Sound t) (hK : K ≤ maxThread) (hr : h.read = s.epoch) :
    h.readTime t = s.clock.time t := by
  have hthread := hs.thread_epoch hK
  have hshared : h.read.isShared = false :=
    Epoch.isShared_eq_false (by rw [hr, hthread]; exact hs.fits.1)
  rw [readTime_of_epoch hshared, hr, if_pos ⟨hs.fits.1, hthread⟩, hs.clock_epoch hK]

/-- Reads kept in an epoch are known to a clock if the epoch is. -/
theorem knownTo_read_iff (hs : h.read.isShared = false) (c : VectorClock K) :
    h.read.KnownTo c ↔ ∀ u, h.readTime u ≤ c.time u := by
  constructor
  · intro hk u
    rw [readTime_of_epoch hs]
    by_cases hu : u ≠ noThread ∧ h.read.thread = u
    · rw [if_pos hu]
      obtain ⟨h0, rfl⟩ := hu
      exact hk.resolve_left h0
    · rw [if_neg hu]
      exact Nat.zero_le _
  · intro hall
    by_cases h0 : h.read.thread = noThread
    · exact .inl h0
    · have hr := hall h.read.thread
      rw [readTime_of_epoch hs, if_pos ⟨h0, rfl⟩] at hr
      exact .inr hr

theorem raceWith_eq {prior : Epoch} (hp : prior.thread ≤ K) (kind : RaceKind)
    (s : ThreadState K) :
    raceWith kind prior s =
      .ok (if prior.KnownTo s.clock then [] else [(kind, prior.thread)]) := by
  simp [raceWith, Epoch.happenedBefore_eq hp, bind, Except.bind, pure, Except.pure]

theorem mem_unknownReaders {reads known : VectorClock K} {u : Nat} :
    u ∈ unknownReaders reads known ↔ known.time u < reads.time u := by
  rw [unknownReaders, List.mem_filter, decide_eq_true_iff]
  refine and_iff_right_of_imp fun h => ?_
  obtain ⟨i, hi⟩ := (fits_of_time_pos (Nat.zero_lt_of_lt h)).slot?_eq
  exact List.mem_map.mpr ⟨i, List.mem_finRange i, (slot?_eq_some.mp hi).symm⟩

/-- A check under the epoch rule leaves the thread as it is. -/
theorem thread_check {a : Access} {f : Finding (EpochHistory K) K} (hf : h.check s a = .ok f) :
    f.thread = s := by
  simp only [check, mapError_eq_ok] at hf
  cases hk : a.kind with
  | read =>
    simp only [hk, checkRead, checkNewRead] at hf
    split at hf
    · exact Except.ok.inj hf ▸ rfl
    · simp only [bind_eq_ok] at hf
      obtain ⟨races, -, hf⟩ := hf
      split at hf
      · obtain ⟨c, -, hf⟩ := bind_eq_ok.mp hf
        exact Except.ok.inj hf ▸ rfl
      · obtain ⟨known, -, hf⟩ := bind_eq_ok.mp hf
        split at hf
        · exact Except.ok.inj hf ▸ rfl
        · obtain ⟨c, -, hf⟩ := bind_eq_ok.mp hf
          obtain ⟨c', -, hf⟩ := bind_eq_ok.mp hf
          exact Except.ok.inj hf ▸ rfl
  | write =>
    simp only [hk, checkWrite, checkNewWrite] at hf
    split at hf
    · exact Except.ok.inj hf ▸ rfl
    · simp only [bind_eq_ok] at hf
      obtain ⟨races, -, hf⟩ := hf
      split at hf
      · exact Except.ok.inj hf ▸ rfl
      · obtain ⟨readers, -, hf⟩ := bind_eq_ok.mp hf
        exact Except.ok.inj hf ▸ rfl

/-- What a read in a new epoch finds and leaves behind. The reads that are no longer
remembered are all known to the reader. -/
structure NewRead (h : EpochHistory K) (t : Nat) (s : ThreadState K)
    (f : Finding (EpochHistory K) K) : Prop where
  races_eq : f.races =
    if h.write.KnownTo s.clock then [] else [(.writeRead, h.write.thread)]
  write_eq : f.history.write = h.write
  readTime_self : f.history.readTime t = s.clock.time t
  readTime_eq : ∀ u, u ≠ t → f.history.readTime u = h.readTime u ∨
    f.history.readTime u = 0 ∧ h.readTime u ≤ s.clock.time u

theorem NewRead.write_known {f : Finding (EpochHistory K) K} (hnew : h.NewRead t s f)
    (hraces : f.races = []) : h.write.KnownTo s.clock := by
  by_contra hnot
  simp [hnew.races_eq, hnot] at hraces

section NewRead

variable (hh : h.InRange) (hs : s.Sound t) (hK : K ≤ maxThread) (x : Address)
include hh hs hK

theorem InRange.checkNewRead_of_shared (hsh : h.read.isShared = true) :
    ∃ f, h.checkNewRead s x = .ok f ∧ f.history.InRange ∧ h.NewRead t s f := by
  have hclock := hs.clock_epoch hK
  obtain rfl := hs.id_eq
  obtain ⟨c, hc, htime⟩ := set_eq_ok hs.fits h.readClock s.epoch.clock
  simp only [checkNewRead, raceWith_eq hh.write_le, hsh, hc, if_true, bind, Except.bind, pure,
    Except.pure]
  have hnew := readTime_of_shared (h := ⟨h.write, h.read, c⟩) hsh
  refine ⟨_, rfl, ⟨hh.write_le, hh.read_le⟩, rfl, rfl, ?_, fun u hu => .inl ?_⟩
  · rw [hnew, htime, if_pos rfl, hclock]
  · rw [hnew, readTime_of_shared hsh, htime, if_neg hu]

theorem InRange.checkNewRead_of_known (hsh : h.read.isShared = false)
    (hknown : h.read.KnownTo s.clock) :
    ∃ f, h.checkNewRead s x = .ok f ∧ f.history.InRange ∧ h.NewRead t s f := by
  have hthread := hs.thread_epoch hK
  have hclock := hs.clock_epoch hK
  simp only [checkNewRead, raceWith_eq hh.write_le, Epoch.happenedBefore_eq hh.read_le, hsh,
    hknown, decide_true, if_true, bind, Except.bind, pure, Except.pure, Bool.false_eq_true,
    if_false]
  have hnew := readTime_of_epoch (h := ⟨h.write, s.epoch, h.readClock⟩)
    (Epoch.isShared_eq_false (hthread ▸ hs.fits.1))
  refine ⟨_, rfl, ⟨hh.write_le, hthread.le.trans hs.fits.2⟩, rfl, rfl, ?_, fun u hu => .inr ?_⟩
  · rw [hnew, if_pos ⟨hs.fits.1, hthread⟩, hclock]
  · rw [hnew, if_neg fun hc => hu (hc.2.symm.trans hthread)]
    exact ⟨rfl, (knownTo_read_iff hsh _).mp hknown u⟩

/-- The last read moves to the read clock and stays what it was. -/
theorem InRange.checkNewRead_of_unknown (hsh : h.read.isShared = false)
    (hknown : ¬ h.read.KnownTo s.clock) :
    ∃ f, h.checkNewRead s x = .ok f ∧ f.history.InRange ∧ h.NewRead t s f := by
  have hclock := hs.clock_epoch hK
  obtain rfl := hs.id_eq
  have hread : h.read.thread ≠ noThread := fun h0 => hknown (.inl h0)
  obtain ⟨c, hc, htime⟩ := set_eq_ok ⟨hread, hh.read_le⟩ VectorClock.zero h.read.clock
  obtain ⟨c', hc', htime'⟩ := set_eq_ok hs.fits c s.epoch.clock
  simp only [checkNewRead, raceWith_eq hh.write_le, Epoch.happenedBefore_eq hh.read_le, hsh,
    hknown, decide_false, hc, hc', bind, Except.bind, pure, Except.pure, Bool.false_eq_true,
    if_false]
  have hnew := readTime_of_shared (h := ⟨h.write, .shared, c'⟩) rfl
  refine ⟨_, rfl, ⟨hh.write_le, Epoch.thread_shared.le.trans (Nat.zero_le _)⟩, rfl, rfl, ?_,
    fun u hu => .inl ?_⟩
  · rw [hnew, htime', if_pos rfl, hclock]
  · rw [hnew, readTime_of_epoch hsh, htime', if_neg hu, htime, time_zero]
    by_cases hur : u = h.read.thread
    · subst hur
      rw [if_pos rfl, if_pos ⟨hread, rfl⟩]
    · rw [if_neg hur, if_neg fun hc => hur hc.2.symm]

theorem InRange.checkRead :
    ∃ f, h.checkRead s x = .ok f ∧ f.history.InRange ∧
      ((h.read = s.epoch ∧ f.history = h ∧ f.races = []) ∨ h.NewRead t s f) := by
  by_cases hsame : h.read = s.epoch
  · exact ⟨_, by rw [EpochHistory.checkRead, if_pos hsame], hh, .inl ⟨hsame, rfl, rfl⟩⟩
  rw [EpochHistory.checkRead, if_neg hsame]
  obtain ⟨f, hf, hrange, hnew⟩ :
      ∃ f, h.checkNewRead s x = .ok f ∧ f.history.InRange ∧ h.NewRead t s f := by
    cases hsh : h.read.isShared with
    | true => exact hh.checkNewRead_of_shared hs hK x hsh
    | false =>
      by_cases hknown : h.read.KnownTo s.clock
      · exact hh.checkNewRead_of_known hs hK x hsh hknown
      · exact hh.checkNewRead_of_unknown hs hK x hsh hknown
  exact ⟨f, hf, hrange, .inr hnew⟩

end NewRead

/-- What a write in a new epoch finds and leaves behind. The reads are kept, or all of
them are settled. -/
structure NewWrite (h : EpochHistory K) (s : ThreadState K) (f : Finding (EpochHistory K) K) :
    Prop where
  mem_races : ∀ kind u, (kind, u) ∈ f.races ↔
    (kind = .writeWrite ∧ u = h.write.thread ∧ ¬ h.write.KnownTo s.clock) ∨
      (kind = .readWrite ∧ s.clock.time u < h.readTime u)
  write_eq : f.history.write = s.epoch
  readTime_eq : (∀ u, f.history.readTime u = h.readTime u) ∨ ∀ u, f.history.readTime u = 0

section NewWrite

variable {f : Finding (EpochHistory K) K} (hnew : h.NewWrite s f) (hraces : f.races = [])
include hnew hraces

theorem NewWrite.write_known : h.write.KnownTo s.clock := by
  by_contra hnot
  have hmem := (hnew.mem_races .writeWrite h.write.thread).mpr (.inl ⟨rfl, rfl, hnot⟩)
  simp [hraces] at hmem

theorem NewWrite.reads_known (u : Nat) : h.readTime u ≤ s.clock.time u := by
  by_contra hnot
  have hmem := (hnew.mem_races .readWrite u).mpr (.inr ⟨rfl, Nat.lt_of_not_le hnot⟩)
  simp [hraces] at hmem

end NewWrite

theorem mem_write_races (h : EpochHistory K) (s : ThreadState K) (kind : RaceKind) (u : Nat) :
    (kind, u) ∈ (if h.write.KnownTo s.clock then [] else [(.writeWrite, h.write.thread)] :
      List (RaceKind × Nat)) ↔
    kind = .writeWrite ∧ u = h.write.thread ∧ ¬ h.write.KnownTo s.clock := by
  by_cases hk : h.write.KnownTo s.clock
  · simp [hk]
  · simp [hk]

theorem mem_read_races (hsh : h.read.isShared = false) (s : ThreadState K) (kind : RaceKind)
    (u : Nat) :
    (kind, u) ∈ (if h.read.KnownTo s.clock then [] else [(.readWrite, h.read.thread)] :
      List (RaceKind × Nat)) ↔
    kind = .readWrite ∧ s.clock.time u < h.readTime u := by
  by_cases hk : h.read.KnownTo s.clock
  · have hall := (knownTo_read_iff hsh s.clock).mp hk u
    simp [hk, hall]
  · have hread : h.read.thread ≠ noThread := fun h0 => hk (.inl h0)
    have hlt : s.clock.time h.read.thread < h.read.clock :=
      Nat.lt_of_not_le fun hle => hk (.inr hle)
    rw [readTime_of_epoch hsh]
    by_cases hu : u = h.read.thread
    · subst hu
      simp [hk, hread, hlt]
    · simp [hk, hu, Ne.symm hu]

theorem InRange.checkWrite (hh : h.InRange) (hs : s.Sound t) (hK : K ≤ maxThread) (x : Address) :
    ∃ f, h.checkWrite s x = .ok f ∧ f.history.InRange ∧
      ((h.write = s.epoch ∧ f.history = h ∧ f.races = []) ∨ h.NewWrite s f) := by
  have hthread : s.epoch.thread ≤ K := (hs.thread_epoch hK).le.trans hs.fits.2
  by_cases hsame : h.write = s.epoch
  · exact ⟨_, by rw [EpochHistory.checkWrite, if_pos hsame], hh, .inl ⟨hsame, rfl, rfl⟩⟩
  rw [EpochHistory.checkWrite, if_neg hsame]
  simp only [checkNewWrite, raceWith_eq hh.write_le, raceWith_eq hh.read_le, bind, Except.bind]
  cases hsh : h.read.isShared with
  | true =>
    simp only [if_true, pure, Except.pure]
    refine ⟨_, rfl, ⟨hthread, Epoch.thread_empty.le.trans (Nat.zero_le _)⟩,
      .inr ⟨fun kind u => ?_, rfl, .inr (readTime_of_empty rfl)⟩⟩
    rw [List.mem_append, mem_write_races, readTime_of_shared hsh]
    refine or_congr Iff.rfl ?_
    simp [mem_unknownReaders, and_comm, eq_comm]
  | false =>
    simp only [Bool.false_eq_true, if_false, pure, Except.pure]
    refine ⟨_, rfl, ⟨hthread, hh.read_le⟩, .inr ⟨fun kind u => ?_, rfl, .inl fun u => rfl⟩⟩
    rw [List.mem_append, mem_write_races, mem_read_races hsh]

/-- What a check under the epoch rule comes to. An access in the epoch of the last one of
its kind finds nothing and changes nothing. -/
inductive Outcome (h : EpochHistory K) (t : Nat) (s : ThreadState K) :
    AccessKind → Finding (EpochHistory K) K → Prop
  | readAgain {f : Finding (EpochHistory K) K} (same : h.read = s.epoch)
      (history_eq : f.history = h) (races_eq : f.races = []) : Outcome h t s .read f
  | writeAgain {f : Finding (EpochHistory K) K} (same : h.write = s.epoch)
      (history_eq : f.history = h) (races_eq : f.races = []) : Outcome h t s .write f
  | read {f : Finding (EpochHistory K) K} (new : h.NewRead t s f) : Outcome h t s .read f
  | write {f : Finding (EpochHistory K) K} (new : h.NewWrite s f) : Outcome h t s .write f

theorem InRange.outcome (hh : h.InRange) (hs : s.Sound t) (hK : K ≤ maxThread) {a : Access}
    {f : Finding (EpochHistory K) K} (hf : h.check s a = .ok f) :
    f.history.InRange ∧ h.Outcome t s a.kind f := by
  obtain ⟨x, kind⟩ := a
  rw [check, mapError_eq_ok] at hf
  cases kind with
  | read =>
    obtain ⟨f', hf', hrange, hcases⟩ := hh.checkRead hs hK x
    obtain rfl := Except.ok.inj (hf'.symm.trans hf)
    rcases hcases with ⟨hsame, hhistory, hraces⟩ | hnew
    · exact ⟨hrange, .readAgain hsame hhistory hraces⟩
    · exact ⟨hrange, .read hnew⟩
  | write =>
    obtain ⟨f', hf', hrange, hcases⟩ := hh.checkWrite hs hK x
    obtain rfl := Except.ok.inj (hf'.symm.trans hf)
    rcases hcases with ⟨hsame, hhistory, hraces⟩ | hnew
    · exact ⟨hrange, .writeAgain hsame hhistory hraces⟩
    · exact ⟨hrange, .write hnew⟩

end EpochHistory

/-! ### The precise rule -/

/-- A check under the precise rule compares the thread in its new event with the last
access, and that event is what it remembers. -/
theorem PreciseHistory.check_eq_ok {K : Nat} {h : PreciseHistory K} {s : ThreadState K}
    {a : Access} {f : Finding (PreciseHistory K) K} (hf : h.check s a = .ok f) :
    f.history = ⟨some ⟨f.thread.id, a.kind, f.thread.clock⟩⟩ ∧
      f.races = h.last?.elim [] fun prior => raceWith prior f.thread a.kind := by
  obtain ⟨s', -, hf⟩ := bind_eq_ok.mp hf
  obtain rfl := Except.ok.inj hf
  cases h.last? <;> exact ⟨rfl, rfl⟩

/-! ### Either rule -/

section

variable {rule : Rule} {K : Nat} {s : ThreadState K} {a : Access}

/-- The thread after an access that passed its check: in a new event under the precise
rule, and as it was under the epoch rule. -/
theorem Rule.check_thread {h : rule.History K} {f : Finding (rule.History K) K}
    (hf : rule.check h s a = .ok f) :
    (rule = .epoch ∧ f.thread = s) ∨ (rule = .precise ∧ s.tick = .ok f.thread) := by
  cases rule with
  | epoch => exact .inl ⟨rfl, EpochHistory.thread_check hf⟩
  | precise =>
    obtain ⟨s', hs', hf⟩ := bind_eq_ok.mp hf
    obtain rfl := Except.ok.inj hf
    exact .inr ⟨rfl, hs'⟩

/-- The entry after a check that came to a finding. -/
def Entry.found (config : Config) (entry : Entry rule K) (address : Address)
    (f : Finding (rule.History K) K) : Entry rule K :=
  { entry with
    history := f.history
    races := entry.races.reportAll config (Entry.eventsOf f address) }

theorem Entry.check_eq_ok {entry : Entry rule K} {config : Config}
    {checked : CheckedAccess rule K} (h : entry.check config s a = .ok checked) :
    ∃ f, rule.check entry.history s a = .ok f ∧ checked.thread = f.thread ∧
      checked.entry = entry.found config a.address f := by
  obtain ⟨f, hf, h⟩ := bind_eq_ok.mp h
  obtain rfl := Except.ok.inj h
  exact ⟨f, hf, rfl, rfl⟩

end

end RaceWatch
