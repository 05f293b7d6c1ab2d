import RaceWatch.Thread

/-!
The threads that one detector observes. A registry hands out identities in
ascending order and never again, and it keeps the state of every thread. Threads
are spoken of through handles. A handle remembers which registry it came from, and
every other registry turns it away.

Fork and join are the same transfer of knowledge between two threads: one of them
learns what the other knows, and the one that was learnt from begins a new event.
-/

namespace RaceWatch

/-- A reference to one registered thread: the tag of its registry and its
identity there. -/
structure Handle where
  owner : Nat
  thread : Nat
deriving DecidableEq

structure Registry (K : Nat) where
  /-- What tells the handles of this registry from those of all others. -/
  tag : Nat
  /-- The state of thread `t` is at position `t - 1`. -/
  threads : List (ThreadState K)
deriving DecidableEq

/-- Every identity up to the capacity has to fit into an epoch. -/
def checkCapacity (K : Nat) : Except Error Unit :=
  if K = 0 ∨ maxThread < K then .error (.invalidCapacity K) else .ok ()

namespace Registry

variable {K : Nat}

def empty (tag : Nat) : Registry K := ⟨tag, []⟩

/-- The number of threads registered so far, whether or not they have exited. -/
def size (r : Registry K) : Nat := r.threads.length

/-- The state of the thread with an identity. -/
def state? (r : Registry K) (thread : Nat) : Option (ThreadState K) :=
  if thread = noThread then none else r.threads[coordinateOf thread]?

/-- A handle for the thread with an identity. -/
def handle? (r : Registry K) (thread : Nat) : Option Handle :=
  (r.state? thread).map fun _ => ⟨r.tag, thread⟩

/-- The state of the thread that a handle of this registry refers to. -/
def lookup (r : Registry K) (h : Handle) : Except Error (ThreadState K) :=
  match if h.owner = r.tag then r.state? h.thread else none with
  | some s => .ok s
  | none => .error (.foreignThread h.thread)

/-- Write back the state of a thread. -/
def put (r : Registry K) (s : ThreadState K) : Registry K :=
  { r with threads := r.threads.set (coordinateOf s.id) s }

/-! ### Reading after writing -/

theorem lookup_eq_ok {r : Registry K} {h : Handle} {s : ThreadState K} :
    r.lookup h = .ok s ↔ h.owner = r.tag ∧ r.state? h.thread = some s := by
  by_cases howner : h.owner = r.tag
  · simp only [lookup, howner, if_true, true_and]
    cases r.state? h.thread <;> simp
  · simp [lookup, howner]

/-- A handle that is turned away is turned away as a foreign one. -/
theorem lookup_eq_error {r : Registry K} {h : Handle} {e : Error} (he : r.lookup h = .error e) :
    e = .foreignThread h.thread := by
  simp only [lookup] at he
  split at he
  · simp at he
  · exact (Except.error.inj he).symm

@[simp] theorem tag_put (r : Registry K) (s : ThreadState K) : (r.put s).tag = r.tag := rfl

@[simp] theorem size_put (r : Registry K) (s : ThreadState K) : (r.put s).size = r.size := by
  simp [put, size]

theorem state?_put (r : Registry K) {s : ThreadState K} (hs : s.id ≠ noThread) (t : Nat) :
    (r.put s).state? t = if s.id = t then (r.state? t).map fun _ => s else r.state? t := by
  simp only [noThread] at hs
  by_cases ht : t = noThread
  · simp only [noThread] at ht
    simp [state?, noThread, ht, hs]
  · simp only [noThread] at ht
    simp only [state?, put, noThread, ht, if_false, coordinateOf, List.getElem?_set]
    by_cases h : s.id = t
    · subst h
      by_cases hlt : s.id - 1 < r.threads.length
      · simp [hlt]
      · simp [hlt]
    · rw [if_neg (by omega), if_neg h]

/-! ### The operations -/

/-- Hand out the next identity, for a thread that only knows its own first event. -/
def register (r : Registry K) : Reply (Registry K) Handle :=
  match checkCapacity K with
  | .error e => .fail r e []
  | .ok () =>
      let id := ownerOf r.size
      if K < id then .fail r (.capacityExceeded K) []
      else match ThreadState.fresh id with
        | .error f => .halt r [] f
        | .ok s => .done { r with threads := r.threads ++ [s] } ⟨r.tag, id⟩ [.registered id]

/-- The state of a thread of this registry that has not exited. -/
def lookupAlive (r : Registry K) (h : Handle) : Except Error (ThreadState K) := do
  let s ← r.lookup h
  s.ensureAlive
  return s

/-- The states of two different threads of this registry, the first of which has not
exited. -/
def lookupPair (r : Registry K) (a b : Handle) : Except Error (ThreadState K × ThreadState K) := do
  let s ← r.lookup a
  let t ← r.lookup b
  if a.thread = b.thread then throw (.selfSynchronization a.thread)
  s.ensureAlive
  return (s, t)

/-- The states of two different threads of this registry, neither of which has
exited. -/
def lookupAlivePair (r : Registry K) (a b : Handle) :
    Except Error (ThreadState K × ThreadState K) := do
  let (s, t) ← r.lookupPair a b
  t.ensureAlive
  return (s, t)

/-- The receiver learns all that the giver knows, and the giver begins a new event,
so that what it does from now on is not known to the receiver. If that event has no
epoch, the receiver has learnt all the same. -/
def transfer (r : Registry K) (giver receiver : ThreadState K) (note : Epoch → Note) :
    Reply (Registry K) Unit :=
  let r := r.put (receiver.observe giver.clock)
  match giver.tick with
  | .error f => .halt r [] f
  | .ok giver => .done (r.put giver) () [note giver.epoch]

/-- The child learns what the parent knows. Both have to be alive. -/
def fork (r : Registry K) (parent child : Handle) : Reply (Registry K) Unit :=
  match r.lookupAlivePair parent child with
  | .error e => .fail r e []
  | .ok (p, c) => r.transfer p c (.forked p.id c.id)

/-- The parent learns what the child knows. The child may have exited. -/
def join (r : Registry K) (parent child : Handle) : Reply (Registry K) Unit :=
  match r.lookupPair parent child with
  | .error e => .fail r e []
  | .ok (p, c) => r.transfer c p (.joined p.id c.id)

/-- Mark a thread as exited. Its identity is not handed out again. -/
def exit (r : Registry K) (h : Handle) : Reply (Registry K) Unit :=
  match r.lookupAlive h with
  | .error e => .fail r e []
  | .ok s => .done (r.put s.exit) () [.exited s.id]

end Registry

end RaceWatch
