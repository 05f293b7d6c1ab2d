import RaceWatch.RaceRecord
import RaceWatch.Rule

/-!
All that is kept of one location: what the rule remembers of its accesses and the
races found there. Checking an access joins the two. The rule finds the races and
the record reports them as the options ask.
-/

namespace RaceWatch

structure Entry (rule : Rule) (K : Nat) where
  address : Address
  history : rule.History K
  races : RaceRecord
deriving DecidableEq

/-- An access that passed its check: the new entry and thread, the number of races
that were counted, and what was noted. -/
structure CheckedAccess (rule : Rule) (K : Nat) where
  entry : Entry rule K
  thread : ThreadState K
  counted : Nat
  notes : List Note

namespace Entry

variable {rule : Rule} {K : Nat}

/-- The entry of a location that nobody has touched. -/
def neutral (address : Address) : Entry rule K := ⟨address, rule.neutral, .empty⟩

/-- The races of a finding as they are reported. -/
def eventsOf {η : Type} (f : Finding η K) (address : Address) : List RaceEvent :=
  f.races.map fun (kind, prior) => ⟨kind, address, f.thread.id, prior⟩

/-- Check an access, report its races and remember it. A check that fails hands nothing
back. It fails before anything is found, as `Rule.check_total` says. -/
def check (config : Config) (entry : Entry rule K) (t : ThreadState K) (access : Access) :
    Except (Failure Fatal) (CheckedAccess rule K) := do
  let found ← rule.check entry.history t access
  let events := eventsOf found access.address
  let races := entry.races.reportAll config events
  return {
    entry := { entry with history := found.history, races }
    thread := found.thread
    counted := (entry.races.countedEach config events).foldr (· + ·) 0
    notes := entry.races.notesEach config events ++ [found.note] }

end Entry

end RaceWatch
