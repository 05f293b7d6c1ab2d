import RaceWatch.Rule.Epoch
import RaceWatch.Rule.Precise

/-!
The two rules for telling whether an access races. They differ in what they remember
of a location, so what is remembered is a type that depends on the rule.
-/

namespace RaceWatch

inductive Rule where
  | epoch
  | precise
deriving DecidableEq

namespace Rule

/-- What a rule remembers of one location. -/
def History : Rule → Nat → Type
  | .epoch, K => EpochHistory K
  | .precise, K => PreciseHistory K

instance (rule : Rule) (K : Nat) : DecidableEq (rule.History K) :=
  match rule with
  | .epoch => inferInstanceAs (DecidableEq (EpochHistory K))
  | .precise => inferInstanceAs (DecidableEq (PreciseHistory K))

variable {K : Nat}

/-- What is remembered of a location that nobody has touched. -/
def neutral : (rule : Rule) → rule.History K
  | .epoch => EpochHistory.neutral
  | .precise => PreciseHistory.neutral

/-- Check an access of a thread against what is remembered of its location. -/
def check : (rule : Rule) → rule.History K → ThreadState K → Access →
    Except (Failure Fatal) (Finding (rule.History K) K)
  | .epoch => EpochHistory.check
  | .precise => PreciseHistory.check

end Rule

end RaceWatch
