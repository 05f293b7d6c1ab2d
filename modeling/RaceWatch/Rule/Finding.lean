import RaceWatch.Thread

/-!
What checking one access finds out. A rule looks at what it remembers of a location
and at the thread that is about to touch it. It names the races that the access
forms and says what to remember from now on. Counting and reporting the races is not
its business.
-/

namespace RaceWatch

/-- The outcome of checking one access under a rule that remembers an `η` of each
location. -/
structure Finding (η : Type) (K : Nat) where
  history : η
  thread : ThreadState K
  /-- The kind of each race found and the thread of its earlier access. -/
  races : List (RaceKind × Nat)
  note : Note
deriving DecidableEq

end RaceWatch
