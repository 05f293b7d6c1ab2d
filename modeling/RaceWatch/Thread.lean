import RaceWatch.Reply
import RaceWatch.VectorClock

/-!
What one observed thread knows of the others. A thread learns by merging clocks
into its own, and it begins a new event of its own history by a tick, which
advances its own coordinate.
-/

namespace RaceWatch

structure ThreadState (K : Nat) where
  id : Nat
  clock : VectorClock K
  /-- The thread's identity and its own coordinate as of its latest tick. -/
  epoch : Epoch
  exited : Bool
deriving DecidableEq

namespace ThreadState

variable {K : Nat}

/-- The epoch of a thread. The assertions of a debug build make the caller unwind where
the epoch does not fit. -/
def epochAt (thread clock : Nat) : Except (Failure Fatal) Epoch :=
  (Epoch.construct thread clock).mapError (.panic <| .misfit ·)

/-- A thread that only knows its own first event. -/
def fresh (id : Nat) : Except (Failure Fatal) (ThreadState K) := do
  let clock ← (VectorClock.zero.set id 1).mapError .error
  let epoch ← epochAt id 1
  return ⟨id, clock, epoch, false⟩

/-- Learn all that a clock knows. The thread stays in its current epoch. -/
def observe (s : ThreadState K) (known : VectorClock K) : ThreadState K :=
  { s with clock := s.clock.merge known }

/-- Begin a new event, which comes after all the thread did and learnt so far. -/
def tick (s : ThreadState K) : Except (Failure Fatal) (ThreadState K) := do
  let (value, clock) ← (s.clock.increment s.id).mapError .error
  let epoch ← epochAt s.id value
  return { s with clock, epoch }

def exit (s : ThreadState K) : ThreadState K := { s with exited := true }

/-- Refuse a thread that has exited. -/
def ensureAlive (s : ThreadState K) : Except Error Unit :=
  if s.exited then .error (.threadExited s.id) else .ok ()

/-! ### What observing leaves alone -/

@[simp] theorem id_observe (s : ThreadState K) (c : VectorClock K) : (s.observe c).id = s.id :=
  rfl

@[simp] theorem clock_observe (s : ThreadState K) (c : VectorClock K) :
    (s.observe c).clock = s.clock.merge c := rfl

@[simp] theorem epoch_observe (s : ThreadState K) (c : VectorClock K) :
    (s.observe c).epoch = s.epoch := rfl

@[simp] theorem exited_observe (s : ThreadState K) (c : VectorClock K) :
    (s.observe c).exited = s.exited := rfl

theorem ensureAlive_eq_ok {s : ThreadState K} : s.ensureAlive = .ok () ↔ s.exited = false := by
  cases h : s.exited <;> simp [ensureAlive, h]

end ThreadState

end RaceWatch
