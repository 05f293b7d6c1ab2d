import RaceWatch.Proofs.ClockLattice
import RaceWatch.Proofs.EpochCheck
import RaceWatch.Proofs.Flagged
import RaceWatch.Proofs.Ownership
import RaceWatch.Proofs.Retention

/-!
What the shortcuts of the epoch rule rely on. An access in the epoch of the last one of its
kind is let pass without a comparison, although another thread may have come in between. If
that happened without a race, the other thread has learnt of the epoch, and then its thread has
left it since. So a thread that is still in the epoch of the last read knows of the last write,
and one that is still in the epoch of the last write knows of the reads.
-/

namespace RaceWatch

open VectorClock

variable {K : Nat}

theorem ThreadState.Sound.knownTo_epoch {s : ThreadState K} {t : Nat} (hs : s.Sound t)
    (hK : K ≤ maxThread) : s.epoch.KnownTo s.clock := by
  refine .inr ?_
  rw [hs.clock_epoch hK, hs.thread_epoch hK]

namespace EpochHistory

variable {h : EpochHistory K} {s : ThreadState K} {a : Access}

/-- Whether an access is in the epoch of the last one of its kind. -/
def Repeats (h : EpochHistory K) (s : ThreadState K) : AccessKind → Prop
  | .read => h.read = s.epoch
  | .write => h.write = s.epoch

/-- Whether a clock knows of what a shortcut leaves out: the last write, or the reads, which
must not be shared. -/
def Clear (h : EpochHistory K) (known : VectorClock K) : AccessKind → Prop
  | .read => h.write.KnownTo known
  | .write => h.read.isShared = false ∧ h.read.KnownTo known

theorem check_of_repeats (hr : h.Repeats s a.kind) :
    ∃ note, h.check s a = .ok ⟨h, s, [], note⟩ := by
  obtain ⟨x, kind⟩ := a
  cases kind with
  | read =>
    have hr : h.read = s.epoch := hr
    exact ⟨_, by rw [check, checkRead, if_pos hr]; rfl⟩
  | write =>
    have hr : h.write = s.epoch := hr
    exact ⟨_, by rw [check, checkWrite, if_pos hr]; rfl⟩

end EpochHistory

/-! ### Epochs that have not been left -/

/-- Whether a thread is still in the epoch. -/
def Epoch.Current (k : Knowledge K) (e : Epoch) : Prop :=
  e.thread ≠ noThread ∧ e.clock = k.own e.thread

section

variable {k k' : Knowledge K} {e : Epoch} {c : VectorClock K} {t : Nat}

/-- A thread that is in an epoch later on has been in it since the epoch came to be. -/
theorem Epoch.Current.of_le (h : e.Current k') (hown : ∀ t, k.own t ≤ k'.own t)
    (he : e.Within k.own) : e.Current k :=
  ⟨h.1, Nat.le_antisymm (he h.1).2 (h.2 ▸ hown _)⟩

/-- Only the thread itself knows of the epoch that it is in. -/
theorem Epoch.Current.thread_eq (h : e.Current k) (hk : k.Ahead) (he : e.Within k.own)
    (hknown : e.KnownTo (k (.thread t))) : e.thread = t := by
  by_contra hne
  have hlt := hk (.thread t) e.thread (by simpa using Ne.symm hne) (he h.1).1
  have hle := hknown.resolve_left h.1
  rw [h.2] at hle
  exact Nat.not_le_of_lt hlt hle

end

namespace EpochHistory

variable {k k' : Knowledge K} {h : EpochHistory K} {s : ThreadState K} {t : Nat} {kind : AccessKind}

/-- Whoever is still in the epoch of the last read knows of the last write, and whoever is
still in the epoch of the last write knows of the reads, which are not shared. -/
structure Settled (k : Knowledge K) (h : EpochHistory K) : Prop where
  read : h.read.Current k → h.Clear (k (.thread h.read.thread)) .read
  write : h.write.Current k → h.Clear (k (.thread h.write.thread)) .write

theorem Clear.mono {c c' : VectorClock K} (hclear : h.Clear c kind) (hc : c ≤ c') :
    h.Clear c' kind := by
  cases kind with
  | read => exact Epoch.KnownTo.mono hclear hc
  | write => exact ⟨hclear.1, hclear.2.mono hc⟩

theorem Settled.mono (hset : h.Settled k) (hk : ∀ t, k (.thread t) ≤ k' (.thread t))
    (hh : h.Within k.own) : h.Settled k' where
  read hcur := (hset.read (hcur.of_le (fun t => time_mono (hk t) t) hh.read)).mono (hk _)
  write hcur := (hset.write (hcur.of_le (fun t => time_mono (hk t) t) hh.write)).mono (hk _)

/-- Settled is enough for an access in the epoch of the last one of its kind. -/
theorem Settled.clear (hset : h.Settled k) (hs : s.Sound t) (hK : K ≤ maxThread)
    (hclock : s.clock = k (.thread t)) (hr : h.Repeats s kind) : h.Clear s.clock kind := by
  have hcur : s.epoch.Current k := by
    refine ⟨hs.thread_epoch hK ▸ hs.fits.1, ?_⟩
    rw [hs.clock_epoch hK, hs.thread_epoch hK, hclock, Knowledge.own]
  cases kind with
  | read =>
    have hr : h.read = s.epoch := hr
    have hclear := hset.read (hr ▸ hcur)
    rwa [hr, hs.thread_epoch hK, ← hclock] at hclear
  | write =>
    have hr : h.write = s.epoch := hr
    have hclear := hset.write (hr ▸ hcur)
    rwa [hr, hs.thread_epoch hK, ← hclock] at hclear

section Accessed

variable (hset : h.Settled k) (hk : k.Ahead) (hh : h.Within k.own) (hs : s.Sound t)
  (hK : K ≤ maxThread) (hclock : s.clock = k (.thread t))
include hset hk hh hs hK hclock

/-- A read that knows of the last write. -/
theorem Settled.readBy (hwrite : h.write.KnownTo s.clock) : (h.readBy s).Settled k := by
  have hwriter (hcur : h.write.Current k) : h.write.thread = t :=
    hcur.thread_eq hk hh.write (hclock ▸ hwrite)
  rw [EpochHistory.readBy]
  by_cases hsame : h.read = s.epoch
  · rwa [if_pos hsame]
  rw [if_neg hsame]
  by_cases hshared : h.read.isShared = true
  · rw [if_pos hshared]
    exact ⟨hset.read, hset.write⟩
  rw [if_neg hshared]
  by_cases hknown : h.read.KnownTo s.clock
  -- The reader takes the place of the last read. If it wrote last, it knows of itself.
  · rw [if_pos hknown]
    refine ⟨fun _ => ?_, fun hcur => ⟨?_, ?_⟩⟩
    · show h.write.KnownTo (k (.thread s.epoch.thread))
      rwa [hs.thread_epoch hK, ← hclock]
    · exact Epoch.isShared_eq_false (hs.thread_epoch hK ▸ hs.fits.1)
    · show s.epoch.KnownTo (k (.thread h.write.thread))
      rw [hwriter hcur, ← hclock]
      exact hs.knownTo_epoch hK
  -- The reads become shared, so that the last writer does not know of all of them.
  · rw [if_neg hknown]
    refine ⟨fun hcur => absurd Epoch.thread_shared hcur.1, fun hcur => absurd ?_ hknown⟩
    have hclear := (hset.write hcur).2
    rwa [hwriter hcur, ← hclock] at hclear

/-- A write that knows of the reads, if they are not shared. -/
theorem Settled.writtenBy (hread : h.read.isShared = false → h.read.KnownTo s.clock) :
    (h.writtenBy s).Settled k := by
  rw [EpochHistory.writtenBy]
  by_cases hsame : h.write = s.epoch
  · rwa [if_pos hsame]
  rw [if_neg hsame]
  cases hshared : h.read.isShared with
  | true =>
    rw [if_pos rfl]
    exact ⟨fun hcur => absurd Epoch.thread_empty hcur.1,
      fun _ => ⟨Epoch.isShared_empty, .inl Epoch.thread_empty⟩⟩
  | false =>
    rw [if_neg Bool.false_ne_true]
    refine ⟨fun hcur => ?_, fun _ => ⟨hshared, ?_⟩⟩
    · show s.epoch.KnownTo (k (.thread h.read.thread))
      rw [hcur.thread_eq hk hh.read (hclock ▸ hread hshared), ← hclock]
      exact hs.knownTo_epoch hK
    · show h.read.KnownTo (k (.thread s.epoch.thread))
      rw [hs.thread_epoch hK, ← hclock]
      exact hread hshared

/-- An access that finds no race. -/
theorem Settled.accessedBy (hraces : h.writeRaces s kind ++ h.readRaces s kind = []) :
    (h.accessedBy s kind).Settled k := by
  obtain ⟨hwrite, hread⟩ := List.append_eq_nil_iff.mp hraces
  cases kind with
  | read =>
    by_cases hsame : h.read = s.epoch
    · rwa [EpochHistory.accessedBy, EpochHistory.readBy, if_pos hsame]
    · refine hset.readBy hk hh hs hK hclock ?_
      by_contra hnot
      simp [writeRaces, hsame, unknown, hnot] at hwrite
  | write =>
    by_cases hsame : h.write = s.epoch
    · rwa [EpochHistory.accessedBy, EpochHistory.writtenBy, if_pos hsame]
    · refine hset.writtenBy hk hh hs hK hclock fun hshared => ?_
      by_contra hnot
      simp [readRaces, hsame, hshared, unknown, hnot] at hread

end Accessed

end EpochHistory

namespace Chronicle

variable {H : Chronicle} {config : Config} {x : Address} {visits : List Visit}

/-- As long as a location has not raced, its history is settled from its last visit on. -/
theorem Leaves.settled {entry : Entry .epoch K} (hle : H.Leaves config x visits entry)
    (hl : H.Legal .epoch K) (ho : H.NoOverflow) (hzero : entry.races.count = 0) {n : Nat}
    (hn : ∀ v ∈ visits, v.position < n) :
    EpochHistory.Settled (H.knownAt .epoch K n) entry.history := by
  induction hle generalizing n with
  | neutral =>
    exact ⟨fun h => absurd Epoch.thread_empty h.1, fun h => absurd Epoch.thread_empty h.1⟩
  | @check visits v entry s f before earlier checks ih =>
    obtain ⟨hzero, hevents⟩ := count_found_eq_zero.mp hzero
    have hbefore (w : Visit) (hw : w ∈ visits) : w.position < v.position :=
      position_lt_of_mem (earlier ▸ hw)
    have hset := ih hzero hbefore
    have hwithin : EpochHistory.Within (H.knownAt .epoch K v.position).own entry.history :=
      before.within hl hbefore
    have hclock : s.clock.Within (H.knownAt .epoch K v.position).own := fun t => by
      rw [checks.clock_eq]
      exact owned_knownAt v.position _ t
    have hnext := EpochHistory.next_of_check checks.check_eq
    obtain ⟨hhistory, -, hraces⟩ :=
      before.epochTrace.inRange.found_eq checks.sound.fits_id checks.check_eq
    have hnil : f.races = [] := List.map_eq_nil_iff.mp hevents
    have hafter : EpochHistory.Settled (H.knownAt .epoch K v.position) f.history :=
      hhistory ▸ hset.accessedBy (ahead_knownAt hl ho v.position) hwithin checks.sound
        checks.capacity checks.clock_eq (hraces ▸ hnil)
    -- From then on the threads only learn.
    exact hafter.mono (fun t => thread_knownAt_mono
      (hn v (List.mem_append_right _ List.mem_cons_self)).le t)
      (hnext.within hwithin checks.sound checks.capacity hclock)

end Chronicle

namespace Detector

variable {d : Detector .epoch K} {config : Config} {tag : Nat}

/-- Where a location has not raced, whoever is in the epoch of the last access of a kind knows
of what the shortcut leaves out. -/
theorem clear_of_repeats (h : create .epoch K config tag = .ok d) (ops : List (Op Handle))
    (ho : (d.chronicle ops).NoOverflow) {n t : Nat} {x : Address} {s : ThreadState K}
    {kind : AccessKind} (hzero : (d.after ops n).raceCount x = 0)
    (hs : (d.after ops n).state? t = some s)
    (hr : EpochHistory.Repeats ((d.after ops n).entryOf x).history s kind) :
    EpochHistory.Clear ((d.after ops n).entryOf x).history s.clock kind := by
  have hset := (leaves_entryOf h ops x n).settled (legal_chronicle h ops) ho
    (raceCount_eq _ x ▸ hzero) fun v => Chronicle.position_lt_of_mem
  exact hset.clear ((sound_after h ops n).threads t s hs) (sound_create h).capacity
    (clock_after h hs) hr

/-- A thread reads a location twice, another one writes to it, and the first one reads again,
still in the same epoch. -/
def readAgain : List (Op Handle) :=
  [.start, .start, .access ⟨0, 1⟩ ⟨7, .read⟩, .access ⟨0, 1⟩ ⟨7, .read⟩,
    .access ⟨0, 2⟩ ⟨7, .write⟩, .access ⟨0, 1⟩ ⟨7, .read⟩]

end Detector

end RaceWatch
