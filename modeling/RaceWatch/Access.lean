/-!
What an observed program does to memory: numbered threads, the addresses they
touch and the two ways of touching one. Threads are named by natural numbers from
1 upwards, so that 0 is free to mean that there is no thread.
-/

namespace RaceWatch

/-- An opaque key for a memory location or a lock. -/
abbrev Address := Nat

/-- The identity that no thread ever has. -/
def noThread : Nat := 0

/-- The largest identity that an epoch has room for. -/
def maxThread : Nat := 255

/-- The number of threads that is allowed for unless told otherwise. -/
def defaultCapacity : Nat := 64

/-- The position of a thread's own coordinate in a vector clock. -/
def coordinateOf (thread : Nat) : Nat := thread - 1

/-- The thread that owns the coordinate at a position. -/
def ownerOf (coordinate : Nat) : Nat := coordinate + 1

@[simp] theorem coordinateOf_ownerOf (i : Nat) : coordinateOf (ownerOf i) = i := rfl

theorem ownerOf_coordinateOf {t : Nat} (h : t ≠ noThread) : ownerOf (coordinateOf t) = t := by
  simp only [noThread] at h
  simp only [ownerOf, coordinateOf]
  omega

/-- How an access touches its location. -/
inductive AccessKind where
  | read
  | write
deriving DecidableEq

namespace AccessKind

def isWrite : AccessKind → Bool
  | .read => false
  | .write => true

def text : AccessKind → String
  | .read => "Read"
  | .write => "Write"

end AccessKind

/-- A single access that is about to happen. -/
structure Access where
  address : Address
  kind : AccessKind
deriving DecidableEq

end RaceWatch
