import RaceWatch.Error

/-!
Vector clocks: one counter for each thread that is allowed for. Thread `t` owns
the coordinate at position `t - 1`. The pointwise order on clocks is the
happened-before order, and merging two clocks takes their pointwise maximum. An
epoch is compared with a clock by a single coordinate.
-/

namespace RaceWatch

/-- A clock with one coordinate for each of `K` threads. -/
structure VectorClock (K : Nat) where
  coords : Vector Nat K
deriving DecidableEq

namespace VectorClock

variable {K : Nat}

/-- The clock that knows of no event. -/
def zero : VectorClock K := ⟨.replicate K 0⟩

/-- The clock with the given coordinates. Those that the list is too short for
are 0. -/
def ofList (values : List Nat) : VectorClock K := ⟨.ofFn fun i => values.getD i 0⟩

def toList (c : VectorClock K) : List Nat := c.coords.toList

/-- The position of a thread's coordinate, for a thread that has one. -/
def slot? (K thread : Nat) : Option (Fin K) :=
  if h : thread ≠ noThread ∧ coordinateOf thread < K then some ⟨coordinateOf thread, h.2⟩
  else none

/-- The coordinate of a thread that has one. -/
def get? (c : VectorClock K) (thread : Nat) : Option Nat :=
  (slot? K thread).map (c.coords[·])

/-- The latest time of a thread that a clock knows of, 0 for a thread that has no
coordinate. -/
def time (c : VectorClock K) (thread : Nat) : Nat := (c.get? thread).getD 0

/-- Write a value into one coordinate. -/
def put (c : VectorClock K) (i : Fin K) (value : Nat) : VectorClock K :=
  ⟨c.coords.set i value⟩

/-- Write a value into the coordinate of a thread. -/
def set (c : VectorClock K) (thread value : Nat) : Except Fatal (VectorClock K) :=
  match slot? K thread with
  | none => .error (.threadOutOfRange thread K)
  | some i => .ok (c.put i value)

/-- Advance the coordinate of a thread by one. The new value is given along with
the new clock. A coordinate that an epoch could not follow stays as it is. -/
def increment (c : VectorClock K) (thread : Nat) : Except Fatal (Nat × VectorClock K) :=
  match slot? K thread with
  | none => .error (.threadOutOfRange thread K)
  | some i =>
      if Epoch.maxClock ≤ c.coords[i] then .error (.clockOverflow thread c.coords[i])
      else .ok (c.coords[i] + 1, c.put i (c.coords[i] + 1))

/-- The pointwise maximum, which knows all that either clock knows. -/
def merge (a b : VectorClock K) : VectorClock K :=
  ⟨.ofFn fun i => max a.coords[i] b.coords[i]⟩

/-- Happened before: no coordinate is larger. -/
instance : LE (VectorClock K) := ⟨fun a b => ∀ i : Fin K, a.coords[i] ≤ b.coords[i]⟩

instance : DecidableLE (VectorClock K) := fun a b =>
  inferInstanceAs (Decidable (∀ i : Fin K, a.coords[i] ≤ b.coords[i]))

/-- Neither clock happened before the other. -/
def Concurrent (a b : VectorClock K) : Prop := ¬ a ≤ b ∧ ¬ b ≤ a

instance (a b : VectorClock K) : Decidable (Concurrent a b) :=
  inferInstanceAs (Decidable (_ ∧ _))

/-! ### Coordinates

A clock is determined by its coordinates, and each operation is described by what
it does to one of them. -/

@[ext] theorem ext {a b : VectorClock K} (h : ∀ i : Fin K, a.coords[i] = b.coords[i]) :
    a = b := by
  cases a
  cases b
  exact congrArg mk (Vector.ext fun i hi => h ⟨i, hi⟩)

theorem le_def {a b : VectorClock K} : a ≤ b ↔ ∀ i : Fin K, a.coords[i] ≤ b.coords[i] :=
  Iff.rfl

@[simp] theorem coords_zero (i : Fin K) : (zero : VectorClock K).coords[i] = 0 := by
  simp [zero]

@[simp] theorem coords_merge (a b : VectorClock K) (i : Fin K) :
    (a.merge b).coords[i] = max a.coords[i] b.coords[i] := by
  simp [merge]

theorem coords_put (c : VectorClock K) (i j : Fin K) (value : Nat) :
    (c.put i value).coords[j] = if i = j then value else c.coords[j] := by
  simp [put, Vector.getElem_set, Fin.ext_iff]

theorem slot?_ownerOf (i : Fin K) : slot? K (ownerOf i) = some i := by
  simp [slot?, ownerOf, coordinateOf, noThread]

theorem slot?_eq_some {thread : Nat} {i : Fin K} :
    slot? K thread = some i ↔ thread = ownerOf i := by
  constructor
  · intro h
    simp only [slot?] at h
    split at h
    · next hlt =>
      rw [← Option.some.inj h]
      exact (ownerOf_coordinateOf hlt.1).symm
    · exact absurd h (by simp)
  · rintro rfl
    exact slot?_ownerOf i

@[simp] theorem time_ownerOf (c : VectorClock K) (i : Fin K) :
    c.time (ownerOf i) = c.coords[i] := by
  simp [time, get?, slot?_ownerOf]

theorem time_of_slot? {thread : Nat} {i : Fin K} (h : slot? K thread = some i)
    (c : VectorClock K) : c.time thread = c.coords[i] := by
  rw [slot?_eq_some.mp h, time_ownerOf]

theorem slot?_eq_none {thread : Nat} : slot? K thread = none ↔ thread = noThread ∨ K < thread := by
  by_cases h : thread ≠ noThread ∧ coordinateOf thread < K
  · simp only [slot?, dif_pos h, reduceCtorEq, false_iff]
    simp only [noThread, coordinateOf] at h ⊢
    omega
  · simp only [slot?, dif_neg h, true_iff]
    simp only [noThread, coordinateOf] at h ⊢
    omega

end VectorClock

/-- Whether the point that an epoch names is known to a clock. An epoch without a
thread is known to every clock. -/
def Epoch.happenedBefore {K : Nat} (e : Epoch) (c : VectorClock K) : Except Fatal Bool :=
  if e.thread = noThread then .ok true
  else match c.get? e.thread with
    | none => .error (.epochOutOfRange e K)
    | some known => .ok (decide (e.clock ≤ known))

end RaceWatch
