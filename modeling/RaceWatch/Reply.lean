import RaceWatch.Note

/-!
What an operation leaves behind. An operation that fails may still have changed
something before it failed, so the new state stands beside the result and not
inside it.
-/

namespace RaceWatch

/-- The state after an operation, its result and its notes. -/
structure Reply (σ α : Type) where
  state : σ
  result : Except (Failure Error) α
  notes : List Note

namespace Reply

variable {σ τ α : Type}

def done (state : σ) (value : α) (notes : List Note) : Reply σ α :=
  ⟨state, .ok value, notes⟩

/-- The operation ends with an error, which is noted last. -/
def fail (state : σ) (error : Error) (notes : List Note) : Reply σ α :=
  ⟨state, .error (.error error), notes ++ error.notes⟩

/-- The operation is ended by a failure of the bookkeeping. -/
def halt (state : σ) (notes : List Note) : Failure Fatal → Reply σ α
  | .error cause => fail state (.fatal cause) notes
  | .panic cause => ⟨state, .error (.panic cause), notes⟩

/-- Put the state into a larger one. -/
def mapState (f : σ → τ) (r : Reply σ α) : Reply τ α := ⟨f r.state, r.result, r.notes⟩

/-- Read the result as a value of another type. -/
def mapResult {β : Type} (f : α → β) (r : Reply σ α) : Reply σ β :=
  ⟨r.state, r.result.map f, r.notes⟩

@[simp] theorem state_done (s : σ) (v : α) (n : List Note) : (done s v n).state = s := rfl

@[simp] theorem result_done (s : σ) (v : α) (n : List Note) : (done s v n).result = .ok v := rfl

@[simp] theorem state_fail (s : σ) (e : Error) (n : List Note) :
    (fail s e n : Reply σ α).state = s := rfl

@[simp] theorem result_fail (s : σ) (e : Error) (n : List Note) :
    (fail s e n : Reply σ α).result = .error (.error e) := rfl

@[simp] theorem state_halt (s : σ) (n : List Note) (f : Failure Fatal) :
    (halt s n f : Reply σ α).state = s := by
  cases f <;> rfl

@[simp] theorem result_halt (s : σ) (n : List Note) (f : Failure Fatal) :
    (halt s n f : Reply σ α).result = .error (f.map .fatal) := by
  cases f <;> rfl

@[simp] theorem state_mapState (f : σ → τ) (r : Reply σ α) : (r.mapState f).state = f r.state :=
  rfl

@[simp] theorem result_mapState (f : σ → τ) (r : Reply σ α) : (r.mapState f).result = r.result :=
  rfl

@[simp] theorem state_mapResult {β : Type} (f : α → β) (r : Reply σ α) :
    (r.mapResult f).state = r.state := rfl

@[simp] theorem result_mapResult {β : Type} (f : α → β) (r : Reply σ α) :
    (r.mapResult f).result = r.result.map f := rfl

end Reply

end RaceWatch
