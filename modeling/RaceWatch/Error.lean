import RaceWatch.Epoch

/-!
Why an operation on a detector does not give an answer. An error is handed back
to the caller. It is either a misuse that the caller can avoid or, when fatal, a
sign that the detector's own bookkeeping can no longer be trusted. A panic unwinds
through the caller instead. Races are neither: they are findings.
-/

namespace RaceWatch

/-- A break of the bookkeeping itself. -/
inductive Fatal where
  | threadOutOfRange (thread capacity : Nat)
  | epochOutOfRange (epoch : Epoch) (capacity : Nat)
  | clockOverflow (thread clock : Nat)
deriving DecidableEq

def Fatal.message : Fatal → String
  | .threadOutOfRange thread capacity =>
      s!"Thread {thread} has no slot in a vector clock tracking {capacity} threads."
  | .epochOutOfRange epoch capacity =>
      s!"Epoch {epoch.text} names a thread which has no slot in a vector clock tracking " ++
        s!"{capacity} threads."
  | .clockOverflow thread clock =>
      s!"The clock of thread {thread} cannot advance past {clock} without overflowing its epoch."

/-- What can go wrong while a program is observed. -/
inductive Error where
  | invalidCapacity (capacity : Nat)
  | capacityExceeded (capacity : Nat)
  | threadExited (thread : Nat)
  | foreignThread (thread : Nat)
  | selfSynchronization (thread : Nat)
  | fatal (cause : Fatal)
deriving DecidableEq

def Error.message : Error → String
  | .invalidCapacity capacity =>
      s!"A detector must support between 1 and {maxThread} threads, but {capacity} was configured."
  | .capacityExceeded capacity =>
      s!"All {capacity} thread slots are already in use. Vector clocks cannot track any more\n" ++
        "threads without losing soundness."
  | .threadExited thread => s!"Thread {thread} has already exited and can no longer be observed."
  | .foreignThread thread => s!"Thread {thread} was registered with a different detector."
  | .selfSynchronization thread => s!"Thread {thread} cannot fork or join itself."
  | .fatal cause =>
      "An internal invariant was violated and detection is no longer sound: " ++ cause.message

/-- Why a call unwinds instead of returning: an epoch was asked for that does not
fit its word, or the operation under observation panicked. -/
inductive Panic where
  | misfit (part : Epoch.Misfit)
  | operation
deriving DecidableEq

def Panic.message : Panic → String
  | .misfit part => part.message
  | .operation => "operation panicked"

/-- The two ways in which a call can end without a result. -/
inductive Failure (ε : Type) where
  | error (cause : ε)
  | panic (cause : Panic)
deriving DecidableEq

/-- Read the errors of a part as errors of the whole. -/
def Failure.map {ε ε' : Type} (f : ε → ε') : Failure ε → Failure ε'
  | .error cause => .error (f cause)
  | .panic cause => .panic cause

end RaceWatch
