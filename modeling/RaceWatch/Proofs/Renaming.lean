import RaceWatch.Proofs.Admission
import RaceWatch.Proofs.EpochCheck

/-!
Threads under other names. A renaming permutes the identities of threads, and it may lead from
clocks of one size to clocks of another. Whatever is made of threads and clocks is renamed with
them, and every operation on clocks, epochs and histories does the same before and after. Only
the reads that a write races with come in the order of their identities, which a renaming does
not keep.
-/

namespace RaceWatch

open VectorClock

/-- Other names for the threads, from clocks of one size to clocks of another. No thread stays
no thread, and every thread that fits the first clocks fits the second ones under its other
name. -/
structure Renaming (K K' : Nat) where
  perm : Equiv.Perm Nat
  perm_noThread : perm noThread = noThread
  perm_le : ∀ t, t ≤ K → perm t ≤ K'

namespace Renaming

variable {K K' : Nat}

instance : CoeFun (Renaming K K') fun _ => Nat → Nat := ⟨fun p => p.perm⟩

variable (p : Renaming K K') {t u : Nat}

@[simp] theorem apply_noThread : p noThread = noThread := p.perm_noThread

@[simp] theorem apply_inj : p t = p u ↔ t = u := p.perm.injective.eq_iff

theorem apply_eq_noThread : p t = noThread ↔ t = noThread := by
  conv_lhs => rw [← p.apply_noThread, p.apply_inj]

theorem fits (h : Fits K t) : Fits K' (p t) :=
  ⟨fun h0 => h.1 (p.apply_eq_noThread.mp h0), p.perm_le t h.2⟩

end Renaming

/-! ### Clocks and epochs -/

namespace VectorClock

variable {K K' : Nat} {p : Renaming K K'} {a b : VectorClock K} {a' b' : VectorClock K'}

/-- Each thread has the same time under its other name. -/
def Renamed (p : Renaming K K') (c : VectorClock K) (c' : VectorClock K') : Prop :=
  ∀ t, c'.time (p t) = c.time t

theorem renamed_zero (p : Renaming K K') : (zero : VectorClock K).Renamed p zero := fun t => by
  rw [time_zero, time_zero]

theorem Renamed.merge (ha : a.Renamed p a') (hb : b.Renamed p b') :
    (a.merge b).Renamed p (a'.merge b') := fun t => by
  rw [time_merge, time_merge, ha, hb]

theorem Renamed.mark (ha : a.Renamed p a') {t : Nat} (ht : Fits K t) (value : Nat) :
    (a.mark t value).Renamed p (a'.mark (p t) value) := fun u => by
  rw [time_mark ht, time_mark (p.fits ht), ha]
  simp only [p.apply_inj]

theorem Renamed.advance (ha : a.Renamed p a') {t : Nat} (ht : Fits K t) :
    (a.advance t).Renamed p (a'.advance (p t)) := fun u => by
  rw [time_advance ht, time_advance (p.fits ht), ha, ha]
  simp only [p.apply_inj]

theorem Renamed.le_iff (ha : a.Renamed p a') (hb : b.Renamed p b') : a' ≤ b' ↔ a ≤ b := by
  rw [le_iff_time, le_iff_time, ← p.perm.forall_congr_right]
  exact forall_congr' fun t => by rw [ha, hb]

theorem Renamed.concurrent_iff (ha : a.Renamed p a') (hb : b.Renamed p b') :
    a'.Concurrent b' ↔ a.Concurrent b := by
  rw [Concurrent, Concurrent, ha.le_iff hb, hb.le_iff ha]

end VectorClock

namespace Epoch

variable {K K' : Nat} {p : Renaming K K'} {e f e' f' : Epoch}

/-- The same point in the history of a thread under its other name. -/
structure Renamed (p : Renaming K K') (e e' : Epoch) : Prop where
  thread_eq : e'.thread = p e.thread
  clock_eq : e'.clock = e.clock

theorem renamed_empty (p : Renaming K K') : Renamed p .empty .empty :=
  ⟨by rw [thread_empty, p.apply_noThread], rfl⟩

theorem renamed_shared (p : Renaming K K') : Renamed p .shared .shared :=
  ⟨by rw [thread_shared, p.apply_noThread], rfl⟩

theorem Renamed.eq_iff (he : e.Renamed p e') (hf : f.Renamed p f') : e' = f' ↔ e = f := by
  constructor
  · intro h
    refine ext_parts ?_ ?_
    · rw [← p.apply_inj, ← he.thread_eq, ← hf.thread_eq, h]
    · rw [← he.clock_eq, ← hf.clock_eq, h]
  · rintro rfl
    exact ext_parts (he.thread_eq.trans hf.thread_eq.symm) (he.clock_eq.trans hf.clock_eq.symm)

theorem Renamed.isShared_eq (he : e.Renamed p e') : e'.isShared = e.isShared := by
  rw [Bool.eq_iff_iff, isShared, isShared, beq_iff_eq, beq_iff_eq, he.eq_iff (renamed_shared p)]

theorem Renamed.knownTo_iff (he : e.Renamed p e') {c : VectorClock K} {c' : VectorClock K'}
    (hc : c.Renamed p c') : e'.KnownTo c' ↔ e.KnownTo c := by
  rw [KnownTo, KnownTo, he.thread_eq, he.clock_eq, hc, p.apply_eq_noThread]

theorem renamed_pack (p : Renaming K K') {t v : Nat} (ht : t ≤ maxThread) (ht' : p t ≤ maxThread)
    (hv : v ≤ maxClock) : (pack t v).Renamed p (pack (p t) v) where
  thread_eq := by rw [thread_pack ht hv, thread_pack ht' hv]
  clock_eq := by rw [clock_pack ht hv, clock_pack ht' hv]

end Epoch

/-! ### Threads -/

namespace ThreadState

variable {K K' : Nat} {p : Renaming K K'} {s : ThreadState K} {s' : ThreadState K'} {t : Nat}

/-- The same thread under its other name. -/
structure Renamed (p : Renaming K K') (s : ThreadState K) (s' : ThreadState K') : Prop where
  id_eq : s'.id = p s.id
  clock : s.clock.Renamed p s'.clock
  epoch : s.epoch.Renamed p s'.epoch
  exited_eq : s'.exited = s.exited

theorem Renamed.observe (h : s.Renamed p s') {c : VectorClock K} {c' : VectorClock K'}
    (hc : c.Renamed p c') : (s.observe c).Renamed p (s'.observe c') :=
  ⟨h.id_eq, h.clock.merge hc, h.epoch, h.exited_eq⟩

theorem Renamed.exit (h : s.Renamed p s') : s.exit.Renamed p s'.exit :=
  ⟨h.id_eq, h.clock, h.epoch, rfl⟩

theorem renamed_first (ht : Fits K t) (hK : K ≤ maxThread) (hK' : K' ≤ maxThread) :
    (first t : ThreadState K).Renamed p (first (p t)) where
  id_eq := rfl
  clock := (renamed_zero p).advance ht
  epoch := Epoch.renamed_pack p (ht.2.trans hK) ((p.perm_le t ht.2).trans hK') (by decide)
  exited_eq := rfl

/-- Both threads tick, or both have used up their clock values. -/
theorem Renamed.tick_cases (h : s.Renamed p s') (hs : s.Sound t) (hK : K ≤ maxThread)
    (hK' : K' ≤ maxThread) :
    (s.tick = .ok s.next ∧ s'.tick = .ok s'.next ∧ s.next.Renamed p s'.next) ∨
      ∃ c, s.tick = .error (.error (.clockOverflow s.id c)) ∧
        s'.tick = .error (.error (.clockOverflow (p s.id) c)) := by
  have hfits : Fits K s.id := hs.id_eq ▸ hs.fits
  have hfits' : Fits K' s'.id := h.id_eq ▸ p.fits hfits
  have htime : s'.clock.time s'.id = s.clock.time s.id := h.id_eq ▸ h.clock s.id
  rw [tick_eq hfits hK, tick_eq hfits' hK', htime, h.id_eq]
  by_cases hfull : Epoch.maxClock ≤ s.clock.time s.id
  · rw [if_pos hfull, if_pos hfull]
    exact .inr ⟨_, rfl, rfl⟩
  · rw [if_neg hfull, if_neg hfull]
    refine .inl ⟨rfl, rfl, h.id_eq, ?_, ?_, h.exited_eq⟩
    · rw [next, next, h.id_eq]
      exact h.clock.advance hfits
    · have hepoch := Epoch.renamed_pack p (hfits.2.trans hK)
        ((p.perm_le _ hfits.2).trans hK') (Nat.lt_of_not_le hfull)
      rw [next, next, htime, h.id_eq]
      exact hepoch

end ThreadState

/-! ### Races -/

/-- A race under the other name of its earlier thread. -/
def renameRace (p : Nat → Nat) (race : RaceKind × Nat) : RaceKind × Nat := (race.1, p race.2)

/-- Races under other names of the threads. Those with reads may come in another order. -/
def RacesRenamed (p : Nat → Nat) (races races' : List (RaceKind × Nat)) : Prop :=
  ∃ head reads reads', races = head ++ reads ∧ races' = head.map (renameRace p) ++ reads' ∧
    reads'.Perm (reads.map (renameRace p)) ∧ (∀ race ∈ reads, race.1 = .readWrite) ∧
    (reads.Pairwise fun a b => a.2 < b.2) ∧ reads'.Pairwise fun a b => a.2 < b.2

theorem racesRenamed_map (p : Nat → Nat) (races : List (RaceKind × Nat)) :
    RacesRenamed p races (races.map (renameRace p)) :=
  ⟨races, [], [], by simp, by simp, .rfl, by simp, .nil, .nil⟩

/-! ### Histories under the epoch rule -/

namespace EpochHistory

variable {K K' : Nat} {p : Renaming K K'} {h : EpochHistory K} {h' : EpochHistory K'}
  {s : ThreadState K} {s' : ThreadState K'} {t : Nat}

structure Renamed (p : Renaming K K') (h : EpochHistory K) (h' : EpochHistory K') : Prop where
  write : h.write.Renamed p h'.write
  read : h.read.Renamed p h'.read
  readClock : h.readClock.Renamed p h'.readClock

theorem renamed_neutral (p : Renaming K K') : (neutral : EpochHistory K).Renamed p neutral :=
  ⟨Epoch.renamed_empty p, Epoch.renamed_empty p, renamed_zero p⟩

theorem Renamed.inRange (hr : h.Renamed p h') (hh : h.InRange) : h'.InRange where
  write_le := hr.write.thread_eq ▸ p.perm_le _ hh.write_le
  read_le := hr.read.thread_eq ▸ p.perm_le _ hh.read_le

theorem Renamed.readBy (hr : h.Renamed p h') (hs : s.Renamed p s') (hh : h.InRange)
    (hid : Fits K s.id) : (h.readBy s).Renamed p (h'.readBy s') := by
  simp only [EpochHistory.readBy, hr.read.eq_iff hs.epoch, hr.read.isShared_eq,
    hr.read.knownTo_iff hs.clock, hs.id_eq, hs.epoch.clock_eq, hr.read.thread_eq,
    hr.read.clock_eq]
  split
  · exact hr
  · split
    · exact ⟨hr.write, hr.read, hr.readClock.mark hid _⟩
    · split
      · exact ⟨hr.write, hs.epoch, hr.readClock⟩
      · next hunknown =>
        have hread : Fits K h.read.thread := ⟨fun h0 => hunknown (.inl h0), hh.read_le⟩
        exact ⟨hr.write, Epoch.renamed_shared p, ((renamed_zero p).mark hread _).mark hid _⟩

theorem Renamed.writtenBy (hr : h.Renamed p h') (hs : s.Renamed p s') :
    (h.writtenBy s).Renamed p (h'.writtenBy s') := by
  simp only [EpochHistory.writtenBy, hr.write.eq_iff hs.epoch, hr.read.isShared_eq]
  split
  · exact hr
  · split
    · exact ⟨hs.epoch, Epoch.renamed_empty p, renamed_zero p⟩
    · exact ⟨hs.epoch, hr.read, hr.readClock⟩

theorem Renamed.accessedBy (hr : h.Renamed p h') (hs : s.Renamed p s') (hh : h.InRange)
    (hid : Fits K s.id) (kind : AccessKind) :
    (h.accessedBy s kind).Renamed p (h'.accessedBy s' kind) := by
  cases kind with
  | read => exact hr.readBy hs hh hid
  | write => exact hr.writtenBy hs

theorem unknown_renamed {e e' : Epoch} (he : e.Renamed p e') {c : VectorClock K}
    {c' : VectorClock K'} (hc : c.Renamed p c') (kind : RaceKind) :
    unknown kind e' c' = (unknown kind e c).map (renameRace p) := by
  simp only [unknown, he.knownTo_iff hc]
  split
  · rfl
  · simp [renameRace, he.thread_eq]

theorem Renamed.writeRaces_eq (hr : h.Renamed p h') (hs : s.Renamed p s') (kind : AccessKind) :
    h'.writeRaces s' kind = (h.writeRaces s kind).map (renameRace p) := by
  cases kind with
  | read =>
    simp only [writeRaces, hr.read.eq_iff hs.epoch, unknown_renamed hr.write hs.clock]
    split <;> rfl
  | write =>
    simp only [writeRaces, hr.write.eq_iff hs.epoch, unknown_renamed hr.write hs.clock]
    split <;> rfl

/-- The readers that a clock does not know of come in the order of their identities. -/
theorem pairwise_unknownReaders (reads known : VectorClock K) :
    (unknownReaders reads known).Pairwise (· < ·) := by
  refine List.Pairwise.filter _ (List.pairwise_map.mpr ?_)
  exact (List.pairwise_lt_finRange K).imp fun hij => Nat.succ_lt_succ hij

theorem unknownReaders_perm {reads known : VectorClock K} {reads' known' : VectorClock K'}
    (hr : reads.Renamed p reads') (hk : known.Renamed p known') :
    (unknownReaders reads' known').Perm ((unknownReaders reads known).map p) := by
  have hnodup : ((unknownReaders reads known).map p).Nodup :=
    List.Nodup.map p.perm.injective ((pairwise_unknownReaders reads known).imp Nat.ne_of_lt)
  refine (List.perm_ext_iff_of_nodup
    ((pairwise_unknownReaders reads' known').imp Nat.ne_of_lt) hnodup).mpr fun u => ?_
  obtain ⟨t, rfl⟩ := p.perm.surjective u
  rw [mem_unknownReaders, hr, hk, ← mem_unknownReaders]
  exact (List.mem_map_of_injective p.perm.injective).symm

theorem Renamed.readRaces_perm (hr : h.Renamed p h') (hs : s.Renamed p s') (kind : AccessKind) :
    (h'.readRaces s' kind).Perm ((h.readRaces s kind).map (renameRace p)) := by
  cases kind with
  | read => exact .rfl
  | write =>
    simp only [readRaces, hr.write.eq_iff hs.epoch, hr.read.isShared_eq,
      unknown_renamed hr.read hs.clock]
    split
    · exact .rfl
    · split
      · rw [List.map_map]
        have hperm := (unknownReaders_perm hr.readClock hs.clock).map (RaceKind.readWrite, ·)
        rwa [List.map_map] at hperm
      · exact .rfl

/-- The races of a write with reads come in the order of the readers. -/
theorem pairwise_readRaces (h : EpochHistory K) (s : ThreadState K) (kind : AccessKind) :
    (h.readRaces s kind).Pairwise fun a b => a.2 < b.2 := by
  cases kind with
  | read => exact .nil
  | write =>
    simp only [readRaces, unknown]
    split
    · exact .nil
    · split
      · exact List.pairwise_map.mpr (pairwise_unknownReaders _ _)
      · split
        · exact .nil
        · exact List.pairwise_singleton _ _

theorem kind_of_mem_readRaces {kind : AccessKind} {race : RaceKind × Nat}
    (hrace : race ∈ h.readRaces s kind) : race.1 = .readWrite := by
  cases kind with
  | read => simp [readRaces] at hrace
  | write =>
    simp only [readRaces, unknown] at hrace
    split at hrace
    · simp at hrace
    · split at hrace
      · obtain ⟨u, -, rfl⟩ := List.mem_map.mp hrace
        rfl
      · split at hrace
        · simp at hrace
        · rw [List.mem_singleton.mp hrace]

end EpochHistory

/-! ### Histories under the precise rule -/

/-- The same access of a thread under its other name. -/
structure LastAccess.Renamed {K K' : Nat} (p : Renaming K K') (a : LastAccess K)
    (a' : LastAccess K') : Prop where
  thread_eq : a'.thread = p a.thread
  kind_eq : a'.kind = a.kind
  clock : a.clock.Renamed p a'.clock

namespace PreciseHistory

variable {K K' : Nat} {p : Renaming K K'} {s : ThreadState K} {s' : ThreadState K'}

def Renamed (p : Renaming K K') (h : PreciseHistory K) (h' : PreciseHistory K') : Prop :=
  Option.Rel (LastAccess.Renamed p) h.last? h'.last?

theorem raceWith_renamed {prior : LastAccess K} {prior' : LastAccess K'}
    (hp : prior.Renamed p prior') (hs : s.Renamed p s') (kind : AccessKind) :
    raceWith prior' s' kind = (raceWith prior s kind).map (renameRace p) := by
  simp only [raceWith, hp.kind_eq, hp.thread_eq, hs.id_eq, hp.clock.concurrent_iff hs.clock,
    ne_eq, p.apply_inj]
  split
  · rfl
  · split
    · rfl
    · rfl

theorem Renamed.check_of_tick {h : PreciseHistory K} {h' : PreciseHistory K'}
    (hr : h.Renamed p h') {u : ThreadState K} {u' : ThreadState K'} (htick : s.tick = .ok u)
    (htick' : s'.tick = .ok u') (hu : u.Renamed p u') (a : Access) :
    ∃ f f', h.check s a = .ok f ∧ h'.check s' a = .ok f' ∧ f.history.Renamed p f'.history ∧
      f.thread.Renamed p f'.thread ∧ RacesRenamed p f.races f'.races := by
  obtain ⟨last⟩ := h
  obtain ⟨last'⟩ := h'
  refine ⟨_, _, by simp only [check, htick]; rfl, by simp only [check, htick']; rfl, ?_, hu, ?_⟩
  · exact Option.Rel.some ⟨hu.id_eq, rfl, hu.clock⟩
  · cases hr with
    | none => exact racesRenamed_map p []
    | some hprior =>
      dsimp only
      rw [raceWith_renamed hprior hu]
      exact racesRenamed_map p _

end PreciseHistory

/-! ### Either rule -/

namespace Rule

variable {rule : Rule} {K K' : Nat} {p : Renaming K K'}

/-- What a rule remembers, under other names of the threads. -/
def Renamed (p : Renaming K K') : (rule : Rule) → rule.History K → rule.History K' → Prop
  | .epoch, h, h' => EpochHistory.Renamed p h h'
  | .precise, h, h' => PreciseHistory.Renamed p h h'

theorem renamed_neutral (rule : Rule) (p : Renaming K K') :
    rule.Renamed p rule.neutral rule.neutral := by
  cases rule with
  | epoch => exact EpochHistory.renamed_neutral p
  | precise => exact .none

/-- The same finding under other names of the threads. -/
structure FindingRenamed (p : Renaming K K') (rule : Rule) (f : Finding (rule.History K) K)
    (f' : Finding (rule.History K') K') : Prop where
  history : rule.Renamed p f.history f'.history
  thread : f.thread.Renamed p f'.thread
  races : RacesRenamed p f.races f'.races

section

variable {h : rule.History K} {h' : rule.History K'} {s : ThreadState K} {s' : ThreadState K'}
  {t : Nat}

/-- A check comes to the same under other names of the threads, also if it fails. -/
theorem check_renamed (hr : rule.Renamed p h h') (hs : s.Renamed p s') (hh : rule.InRange h)
    (hsound : s.Sound t) (hsound' : s'.Sound (p t)) (hK : K ≤ maxThread) (hK' : K' ≤ maxThread)
    (a : Access) :
    (∃ f f', rule.check h s a = .ok f ∧ rule.check h' s' a = .ok f' ∧ FindingRenamed p rule f f') ∨
      ∃ c, rule.check h s a = .error (.error (.clockOverflow s.id c)) ∧
        rule.check h' s' a = .error (.error (.clockOverflow (p s.id) c)) := by
  have hid : Fits K s.id := hsound.fits_id
  cases rule with
  | epoch =>
    left
    have hr : EpochHistory.Renamed p h h' := hr
    have hh : EpochHistory.InRange h := hh
    obtain ⟨note, hcheck⟩ := hh.check_eq hid a
    obtain ⟨note', hcheck'⟩ := (hr.inRange hh).check_eq hsound'.fits_id a
    exact ⟨_, _, hcheck, hcheck', hr.accessedBy hs hh hid a.kind, hs, _, _, _, rfl,
      by rw [hr.writeRaces_eq hs], hr.readRaces_perm hs a.kind,
      fun race => EpochHistory.kind_of_mem_readRaces,
      EpochHistory.pairwise_readRaces _ _ _, EpochHistory.pairwise_readRaces _ _ _⟩
  | precise =>
    rcases hs.tick_cases hsound hK hK' with ⟨htick, htick', hnext⟩ | ⟨c, htick, htick'⟩
    · obtain ⟨f, f', hf, hf', hhistory, hthread, hraces⟩ :=
        PreciseHistory.Renamed.check_of_tick hr htick htick' hnext a
      exact .inl ⟨f, f', hf, hf', hhistory, hthread, hraces⟩
    · exact .inr ⟨c, PreciseHistory.check_of_tick_error h htick a,
        PreciseHistory.check_of_tick_error h' htick' a⟩

end

end Rule

end RaceWatch
