import RaceWatch.Rule.Finding

/-!
The epoch rule. Of a location it remembers the epoch of the last write and, as long
as the reads are ordered, the epoch of the last read. Once two threads have read
without an order between them, the reads are kept in a vector clock until the next
write. An access compares epochs with the clock of the accessing thread, and it
never ticks the thread, so that all accesses of one thread between two of its
synchronizations share an epoch.
-/

namespace RaceWatch

/-- What the epoch rule remembers of a location. -/
structure EpochHistory (K : Nat) where
  /-- The epoch of the last write, the empty epoch before the first. -/
  write : Epoch
  /-- The epoch of the last read, or the shared mark while the read clock is in
  use. -/
  read : Epoch
  /-- The clock of each thread's last read since the reads became shared, zero
  while they are not. -/
  readClock : VectorClock K
deriving DecidableEq

namespace EpochHistory

variable {K : Nat}

/-- The history of a location that nobody has touched. -/
def neutral : EpochHistory K := ⟨.empty, .empty, .zero⟩

/-- The read clock, while it is in use. -/
def sharedReads? (h : EpochHistory K) : Option (VectorClock K) :=
  if h.read.isShared then some h.readClock else none

/-- The race with the access at an epoch, unless the thread knows of that access. -/
def raceWith (kind : RaceKind) (prior : Epoch) (t : ThreadState K) :
    Except Fatal (List (RaceKind × Nat)) := do
  let ordered ← prior.happenedBefore t.clock
  return if ordered then [] else [(kind, prior.thread)]

/-- The threads with a read that a clock does not know of, in ascending order. -/
def unknownReaders (reads known : VectorClock K) : List Nat :=
  ((List.finRange K).map fun i : Fin K => ownerOf i).filter fun reader =>
    decide (known.time reader < reads.time reader)

/-- Check a read that is not in the epoch of the last read. It races with the last
write if it does not know of it. It then takes its coordinate of the read clock if
that is in use, takes the place of the last read if it knows of it, and puts the
read clock into use otherwise. -/
def checkNewRead (h : EpochHistory K) (t : ThreadState K) (address : Address) :
    Except Fatal (Finding (EpochHistory K) K) := do
  let races ← raceWith .writeRead h.write t
  if h.read.isShared then
    let readClock ← h.readClock.set t.id t.epoch.clock
    return ⟨{ h with readClock }, t, races, .passed .readShared address t.epoch⟩
  else if ← h.read.happenedBefore t.clock then
    return ⟨{ h with read := t.epoch }, t, races, .passed .readExclusive address t.epoch⟩
  else
    let lastRead ← VectorClock.zero.set h.read.thread h.read.clock
    let readClock ← lastRead.set t.id t.epoch.clock
    return ⟨{ h with read := .shared, readClock }, t, races,
      .readsBecameShared address h.read t.epoch⟩

/-- Check a write that is not in the epoch of the last write. It races with the last
write, with the last read and with each of the shared reads, if it does not know of
them. Shared reads are settled by it. -/
def checkNewWrite (h : EpochHistory K) (t : ThreadState K) (address : Address) :
    Except Fatal (Finding (EpochHistory K) K) := do
  let races ← raceWith .writeWrite h.write t
  if h.read.isShared then
    let readers := (unknownReaders h.readClock t.clock).map fun reader => (.readWrite, reader)
    return ⟨⟨t.epoch, .empty, .zero⟩, t, races ++ readers, .passed .writeShared address t.epoch⟩
  else
    let readers ← raceWith .readWrite h.read t
    return ⟨{ h with write := t.epoch }, t, races ++ readers,
      .passed .writeExclusive address t.epoch⟩

/-- Check a read. Reading again in the epoch of the last read changes nothing. -/
def checkRead (h : EpochHistory K) (t : ThreadState K) (address : Address) :
    Except Fatal (Finding (EpochHistory K) K) :=
  if h.read = t.epoch then .ok ⟨h, t, [], .passed .readSameEpoch address t.epoch⟩
  else h.checkNewRead t address

/-- Check a write. Writing again in the epoch of the last write changes nothing. -/
def checkWrite (h : EpochHistory K) (t : ThreadState K) (address : Address) :
    Except Fatal (Finding (EpochHistory K) K) :=
  if h.write = t.epoch then .ok ⟨h, t, [], .passed .writeSameEpoch address t.epoch⟩
  else h.checkNewWrite t address

/-- Check an access. This fails only where a thread is named that has no coordinate.
The threads and histories of a detector name none, and so `Rule.check_total` applies. -/
def check (h : EpochHistory K) (t : ThreadState K) (access : Access) :
    Except (Failure Fatal) (Finding (EpochHistory K) K) :=
  (match access.kind with
    | .read => h.checkRead t access.address
    | .write => h.checkWrite t access.address).mapError .error

end EpochHistory

end RaceWatch
