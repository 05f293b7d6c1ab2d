import RaceWatch.Rule.Finding

/-!
The precise rule. Of a location it remembers the last access, with the whole clock
of the thread that made it. Every access is an event of its own: it ticks the thread
first, and it races with the last access if neither of the two clocks happened
before the other.
-/

namespace RaceWatch

/-- An access that has been made, and the clock of its thread right after. -/
structure LastAccess (K : Nat) where
  thread : Nat
  kind : AccessKind
  clock : VectorClock K
deriving DecidableEq

/-- The last access to a location that was touched before. -/
structure PreciseHistory (K : Nat) where
  last? : Option (LastAccess K)
deriving DecidableEq

namespace PreciseHistory

variable {K : Nat}

/-- The history of a location that nobody has touched. -/
def neutral : PreciseHistory K := ⟨none⟩

def accessor? (h : PreciseHistory K) : Option Nat := h.last?.map (·.thread)

/-- The kind of the last access. A location that nobody has touched counts as
read. -/
def kind (h : PreciseHistory K) : AccessKind := (h.last?.map (·.kind)).getD .read

def clock (h : PreciseHistory K) : VectorClock K := (h.last?.map (·.clock)).getD .zero

/-- The race that an access forms with an earlier one. -/
def raceWith (prior : LastAccess K) (t : ThreadState K) (kind : AccessKind) :
    List (RaceKind × Nat) :=
  match RaceKind.between? prior.kind kind with
  | none => []
  | some race =>
      if prior.thread ≠ t.id ∧ prior.clock.Concurrent t.clock then [(race, prior.thread)] else []

def check (h : PreciseHistory K) (t : ThreadState K) (access : Access) :
    Except (Failure Fatal) (Finding (PreciseHistory K) K) := do
  let t ← t.tick
  let races := match h.last? with
    | none => []
    | some prior => raceWith prior t access.kind
  return ⟨⟨some ⟨t.id, access.kind, t.clock⟩⟩, t, races, .recorded access t.id t.epoch⟩

end PreciseHistory

end RaceWatch
