import RaceWatch.Access

/-!
Races: two accesses of different threads to one location, at least one of them a
write, with no order between them.
-/

namespace RaceWatch

/-- The kinds of the two accesses, the earlier one first. -/
inductive RaceKind where
  | writeWrite
  | writeRead
  | readWrite
deriving DecidableEq

namespace RaceKind

def text : RaceKind → String
  | .writeWrite => "write-write"
  | .writeRead => "write-read"
  | .readWrite => "read-write"

/-- The race that two unordered accesses form. Two reads form none. -/
def between? : (earlier later : AccessKind) → Option RaceKind
  | .write, .write => some .writeWrite
  | .write, .read => some .writeRead
  | .read, .write => some .readWrite
  | .read, .read => none

theorem between?_eq_none {a b : AccessKind} :
    between? a b = none ↔ a = .read ∧ b = .read := by
  cases a <;> cases b <;> simp [between?]

end RaceKind

/-- One race as it is reported. -/
structure RaceEvent where
  kind : RaceKind
  address : Address
  /-- The thread whose access brought the race to light. -/
  thread : Nat
  /-- The thread whose earlier access is not ordered before that one. -/
  priorThread : Nat
deriving DecidableEq

def RaceEvent.text (e : RaceEvent) : String :=
  s!"{e.kind.text} race on address {e.address} between thread {e.priorThread} and thread {e.thread}"

end RaceWatch
