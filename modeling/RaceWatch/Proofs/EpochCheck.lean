import RaceWatch.Proofs.Check

/-!
The check of the epoch rule in closed form. For a thread that has a coordinate and a history that
only names such threads no comparison and no write of a coordinate can fail. What is left
are the seven cases of the rule, three for each kind of access and one more for the read that
makes the reads shared, written as one function for the new history and one for the races.
-/

namespace RaceWatch

open VectorClock

namespace VectorClock

variable {K t : Nat}

/-- The clock with the coordinate of a thread written, as it was if the thread has none. -/
def mark (c : VectorClock K) (t value : Nat) : VectorClock K :=
  (slot? K t).elim c (c.put · value)

theorem set_eq_mark (h : Fits K t) (c : VectorClock K) (value : Nat) :
    c.set t value = .ok (c.mark t value) := by
  obtain ⟨i, hi⟩ := h.slot?_eq
  simp [set, mark, hi]

theorem time_mark (h : Fits K t) (c : VectorClock K) (value u : Nat) :
    (c.mark t value).time u = if u = t then value else c.time u := by
  obtain ⟨i, hi⟩ := h.slot?_eq
  rw [mark, hi, Option.elim_some, time_put hi]

end VectorClock

namespace EpochHistory

variable {K : Nat} {h : EpochHistory K} {s : ThreadState K}

/-- The history after a read of a thread. -/
def readBy (h : EpochHistory K) (s : ThreadState K) : EpochHistory K :=
  if h.read = s.epoch then h
  else if h.read.isShared then { h with readClock := h.readClock.mark s.id s.epoch.clock }
  else if h.read.KnownTo s.clock then { h with read := s.epoch }
  else
    { h with
      read := .shared
      readClock := (zero.mark h.read.thread h.read.clock).mark s.id s.epoch.clock }

/-- The history after a write of a thread. -/
def writtenBy (h : EpochHistory K) (s : ThreadState K) : EpochHistory K :=
  if h.write = s.epoch then h
  else if h.read.isShared then ⟨s.epoch, .empty, .zero⟩
  else { h with write := s.epoch }

/-- The history after an access of a thread. -/
def accessedBy (h : EpochHistory K) (s : ThreadState K) : AccessKind → EpochHistory K
  | .read => h.readBy s
  | .write => h.writtenBy s

/-- The race with the access at an epoch, if a clock does not know of it. -/
def unknown (kind : RaceKind) (prior : Epoch) (known : VectorClock K) : List (RaceKind × Nat) :=
  if prior.KnownTo known then [] else [(kind, prior.thread)]

/-- The race of an access with the last write. -/
def writeRaces (h : EpochHistory K) (s : ThreadState K) : AccessKind → List (RaceKind × Nat)
  | .read => if h.read = s.epoch then [] else unknown .writeRead h.write s.clock
  | .write => if h.write = s.epoch then [] else unknown .writeWrite h.write s.clock

/-- The races of an access with the reads. A read has none. -/
def readRaces (h : EpochHistory K) (s : ThreadState K) : AccessKind → List (RaceKind × Nat)
  | .read => []
  | .write =>
      if h.write = s.epoch then []
      else if h.read.isShared then
        (unknownReaders h.readClock s.clock).map fun reader => (.readWrite, reader)
      else unknown .readWrite h.read s.clock

theorem raceWith_eq_unknown {prior : Epoch} (hp : prior.thread ≤ K) (kind : RaceKind)
    (s : ThreadState K) : raceWith kind prior s = .ok (unknown kind prior s.clock) :=
  raceWith_eq hp kind s

theorem InRange.checkRead_eq (hh : h.InRange) (hid : Fits K s.id) (x : Address) :
    ∃ note, h.checkRead s x = .ok ⟨h.readBy s, s, h.writeRaces s .read, note⟩ := by
  rw [EpochHistory.checkRead, readBy, writeRaces]
  by_cases hsame : h.read = s.epoch
  · simp only [if_pos hsame]
    exact ⟨_, rfl⟩
  · simp only [if_neg hsame, checkNewRead, raceWith_eq_unknown hh.write_le]
    cases hshared : h.read.isShared with
    | true =>
      simp only [if_true, set_eq_mark hid]
      exact ⟨_, rfl⟩
    | false =>
      simp only [Bool.false_eq_true, if_false, Epoch.happenedBefore_eq hh.read_le]
      by_cases hknown : h.read.KnownTo s.clock
      · simp only [hknown, decide_true, if_true]
        exact ⟨_, rfl⟩
      · have hread : Fits K h.read.thread := ⟨fun h0 => hknown (.inl h0), hh.read_le⟩
        simp only [hknown, decide_false, if_false, set_eq_mark hread, set_eq_mark hid]
        exact ⟨_, rfl⟩

theorem InRange.checkWrite_eq (hh : h.InRange) (s : ThreadState K) (x : Address) :
    ∃ note, h.checkWrite s x =
      .ok ⟨h.writtenBy s, s, h.writeRaces s .write ++ h.readRaces s .write, note⟩ := by
  rw [EpochHistory.checkWrite, writtenBy, writeRaces, readRaces]
  by_cases hsame : h.write = s.epoch
  · simp only [if_pos hsame]
    exact ⟨_, rfl⟩
  · simp only [if_neg hsame, checkNewWrite, raceWith_eq_unknown hh.write_le]
    cases hshared : h.read.isShared with
    | true =>
      simp only [if_true]
      exact ⟨_, rfl⟩
    | false =>
      simp only [Bool.false_eq_true, if_false, raceWith_eq_unknown hh.read_le]
      exact ⟨_, rfl⟩

/-- Under the epoch rule a check goes through, leaves the thread as it is and changes the
history as its case of the rule says. -/
theorem InRange.check_eq (hh : h.InRange) (hid : Fits K s.id) (a : Access) :
    ∃ note, h.check s a = .ok ⟨h.accessedBy s a.kind, s,
      h.writeRaces s a.kind ++ h.readRaces s a.kind, note⟩ := by
  obtain ⟨x, kind⟩ := a
  cases kind with
  | read =>
    obtain ⟨note, hcheck⟩ := hh.checkRead_eq hid x
    refine ⟨note, ?_⟩
    simp only [check, hcheck, readRaces, List.append_nil]
    rfl
  | write =>
    obtain ⟨note, hcheck⟩ := hh.checkWrite_eq s x
    refine ⟨note, ?_⟩
    simp only [check, hcheck]
    rfl

/-- What a check that went through under the epoch rule has come to. -/
theorem InRange.found_eq (hh : h.InRange) (hid : Fits K s.id) {a : Access}
    {f : Finding (EpochHistory K) K} (hf : h.check s a = .ok f) :
    f.history = h.accessedBy s a.kind ∧ f.thread = s ∧
      f.races = h.writeRaces s a.kind ++ h.readRaces s a.kind := by
  obtain ⟨note, hcheck⟩ := hh.check_eq hid a
  obtain rfl := Except.ok.inj (hcheck.symm.trans hf)
  exact ⟨rfl, rfl, rfl⟩

/-- A history keeps naming only threads that have a coordinate. -/
theorem InRange.accessedBy (hh : h.InRange) (hs : s.epoch.thread ≤ K) (kind : AccessKind) :
    (h.accessedBy s kind).InRange := by
  cases kind with
  | read =>
    simp only [EpochHistory.accessedBy, readBy]
    split
    · exact hh
    split
    · exact ⟨hh.write_le, hh.read_le⟩
    split
    · exact ⟨hh.write_le, hs⟩
    · exact ⟨hh.write_le, Epoch.thread_shared.le.trans (Nat.zero_le _)⟩
  | write =>
    simp only [EpochHistory.accessedBy, writtenBy]
    split
    · exact hh
    split
    · exact ⟨hs, Epoch.thread_empty.le.trans (Nat.zero_le _)⟩
    · exact ⟨hs, hh.read_le⟩

end EpochHistory

/-! ### Checks that leave the history as it is -/

namespace Entry

variable {rule : Rule} {K : Nat} {entry : Entry rule K} {f : Finding (rule.History K) K}

theorem found_of_history_eq (config : Config) (h : f.history = entry.history) (x : Address) :
    entry.found config x f =
      { entry with races := entry.races.reportAll config (eventsOf f x) } := by
  rw [found, h]

/-- A check that finds no race and leaves the history as it is leaves the entry as it is. -/
theorem found_of_races_eq_nil (config : Config) (h : f.history = entry.history)
    (hraces : f.races = []) (x : Address) : entry.found config x f = entry := by
  rw [found_of_history_eq config h, eventsOf, hraces]
  rfl

end Entry

end RaceWatch
