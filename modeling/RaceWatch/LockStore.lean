import RaceWatch.Thread
import Std.Data.ExtTreeMap

/-!
Locks carry knowledge from one thread to another. A release publishes the clock of
the releasing thread through the lock, in place of what was published before, and
an acquire learns it.
-/

namespace RaceWatch

/-- The clock published by the latest release of each lock that was used. -/
structure LockStore (K : Nat) where
  clocks : Std.ExtTreeMap Address (VectorClock K)

namespace LockStore

variable {K : Nat}

def empty : LockStore K := ⟨∅⟩

def clock? (s : LockStore K) (lock : Address) : Option (VectorClock K) := s.clocks[lock]?

def size (s : LockStore K) : Nat := s.clocks.size

/-- Begin to keep a lock, which has published nothing if it was not kept before. -/
def touch (s : LockStore K) (lock : Address) : LockStore K :=
  ⟨s.clocks.insertIfNew lock .zero⟩

def publish (s : LockStore K) (lock : Address) (clock : VectorClock K) : LockStore K :=
  ⟨s.clocks.insert lock clock⟩

/-- The thread learns what the latest release of the lock published. -/
def acquire (s : LockStore K) (lock : Address) (t : ThreadState K) :
    Reply (LockStore K × ThreadState K) Unit :=
  match t.ensureAlive with
  | .error e => .fail (s.touch lock, t) e []
  | .ok () =>
      .done (s.touch lock, t.observe ((s.clock? lock).getD .zero)) () [.acquired lock t.id]

/-- Publish what the thread knows, and let the thread begin a new event, which comes
after the release. If that event has no epoch, the clock is published all the same. -/
def release (s : LockStore K) (lock : Address) (t : ThreadState K) :
    Reply (LockStore K × ThreadState K) Unit :=
  match t.ensureAlive with
  | .error e => .fail (s.touch lock, t) e []
  | .ok () =>
      let s := s.publish lock t.clock
      match t.tick with
      | .error f => .halt (s, t) [] f
      | .ok t => .done (s, t) () [.released lock t.id t.epoch]

/-- Drop what is kept of a lock. The flag tells whether there was anything. -/
def forget (s : LockStore K) (lock : Address) : Reply (LockStore K) Bool :=
  .done ⟨s.clocks.erase lock⟩ (s.clocks.contains lock) []

/-! ### The clock of each lock -/

@[simp] theorem clock?_empty (lock : Address) : (empty : LockStore K).clock? lock = none := by
  simp [clock?, empty]

theorem clock?_touch (s : LockStore K) (lock l : Address) :
    (s.touch lock).clock? l =
      if lock = l then some ((s.clock? lock).getD .zero) else s.clock? l := by
  simp only [clock?, touch, Std.ExtTreeMap.getElem?_insertIfNew]
  by_cases h : lock = l
  · subst h
    by_cases hm : lock ∈ s.clocks
    · simp [hm]
    · simp [hm]
  · simp [h]

theorem clock?_publish (s : LockStore K) (lock l : Address) (clock : VectorClock K) :
    (s.publish lock clock).clock? l = if lock = l then some clock else s.clock? l := by
  simp [clock?, publish, Std.ExtTreeMap.getElem?_insert]

theorem clock?_forget (s : LockStore K) (lock l : Address) :
    (s.forget lock).state.clock? l = if lock = l then none else s.clock? l := by
  simp [clock?, forget, Std.ExtTreeMap.getElem?_erase]

@[ext] theorem ext {s s' : LockStore K} (h : ∀ lock, s.clock? lock = s'.clock? lock) :
    s = s' := by
  cases s
  cases s'
  exact congrArg mk (Std.ExtTreeMap.ext_getElem? h)

end LockStore

end RaceWatch
