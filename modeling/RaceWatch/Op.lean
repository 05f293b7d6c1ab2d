import RaceWatch.Access
import RaceWatch.Registry

/-!
The operations of an observed program that a detector is told of. Threads are
referred to in a way that is left open here: by handles where a detector is called,
by names where a script is written down.
-/

namespace RaceWatch

/-- One operation, where threads are referred to by a `ρ`. -/
inductive Op (ρ : Type) where
  /-- A new thread comes to be. -/
  | start
  | fork (parent child : ρ)
  | join (parent child : ρ)
  | exit (thread : ρ)
  | acquire (lock : Address) (thread : ρ)
  | release (lock : Address) (thread : ρ)
  /-- A lock ceases to exist. -/
  | forgetLock (lock : Address)
  | access (thread : ρ) (access : Access)
  /-- A location is to be monitored. -/
  | init (address : Address)
  /-- A location ceases to exist. -/
  | forget (address : Address)
deriving DecidableEq

/-- What an operation that succeeds hands back. -/
inductive Value where
  | unit
  | flag (value : Bool)
  | number (value : Int)
  | handle (value : Handle)
deriving DecidableEq

namespace Op

variable {ρ ρ' : Type}

/-- Refer to the threads in another way, if all of them can be referred to so. -/
def resolve (f : ρ → Option ρ') : Op ρ → Option (Op ρ')
  | .start => some .start
  | .fork p c => return .fork (← f p) (← f c)
  | .join p c => return .join (← f p) (← f c)
  | .exit t => return .exit (← f t)
  | .acquire lock t => return .acquire lock (← f t)
  | .release lock t => return .release lock (← f t)
  | .forgetLock lock => some (.forgetLock lock)
  | .access t a => return .access (← f t) a
  | .init address => some (.init address)
  | .forget address => some (.forget address)

/-- The threads that an operation names, in the order in which they are looked at. -/
def threads : Op ρ → List ρ
  | .fork p c | .join p c => [p, c]
  | .exit t | .acquire _ t | .release _ t | .access t _ => [t]
  | .start | .forgetLock _ | .init _ | .forget _ => []

end Op

end RaceWatch
