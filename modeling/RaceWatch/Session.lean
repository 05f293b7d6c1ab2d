import RaceWatch.Detector

/-!
Several detectors at work on one program, with the memory cells that the program
reads and writes through them. Threads can be given names here. A name stands for a
handle and may be given again.
-/

namespace RaceWatch

/-- A detector with the rule it works by. -/
abbrev AnyDetector (K : Nat) : Type := (rule : Rule) × Detector rule K

structure Session (K : Nat) where
  /-- Each detector's tag is its position. -/
  detectors : List (AnyDetector K)
  /-- The value of each cell, by the cell's address. -/
  cells : Std.ExtTreeMap Address Int
  /-- What the names given so far stand for. -/
  names : Std.ExtTreeMap String Handle

/-- How a thread is referred to. -/
inductive ThreadRef where
  | handle (value : Handle)
  | name (text : String)
deriving DecidableEq

/-- One thing a session does, where threads are referred to by a `ρ`. -/
inductive Act (ρ : Type) (K : Nat) where
  /-- Tell a detector of an operation. If that yields a handle, it may be given a
  name. -/
  | call (detector : Nat) (op : Op ρ) (name? : Option String)
  /-- Read a cell through a detector. -/
  | load (detector : Nat) (thread : ρ) (cell : Address)
  /-- Write a cell through a detector. -/
  | store (detector : Nat) (thread : ρ) (cell : Address) (value : Int)
  /-- Get another handle of a thread, which may be given a name. -/
  | recall (detector : Nat) (thread : Nat) (name? : Option String)
  /-- Let a thread know of a clock, with none of the checks that the operations
  make. -/
  | observe (thread : ρ) (clock : VectorClock K)
  /-- Pause, for the session to be looked at. -/
  | look
deriving DecidableEq

/-- Refer to the threads in another way, if all of them can be referred to so. -/
def Act.resolve {ρ ρ' : Type} {K : Nat} (f : ρ → Option ρ') : Act ρ K → Option (Act ρ' K)
  | .call d op name? => return .call d (← op.resolve f) name?
  | .load d t cell => return .load d (← f t) cell
  | .store d t cell value => return .store d (← f t) cell value
  | .recall d thread name? => some (.recall d thread name?)
  | .observe t clock => return .observe (← f t) clock
  | .look => some .look

namespace Session

variable {K : Nat}

/-- The handle that a reference stands for. -/
def resolve? (s : Session K) : ThreadRef → Option Handle
  | .handle h => some h
  | .name n => s.names[n]?

def detector? (s : Session K) (i : Nat) : Option (AnyDetector K) := s.detectors[i]?

/-- The state of the thread that a handle refers to, whichever detector it is of. -/
def state? (s : Session K) (h : Handle) : Option (ThreadState K) :=
  s.detectors.findSome? fun ⟨_, d⟩ => (d.registry.lookup h).toOption

/-- Give a name to a handle, if there is a name to give. -/
def bind (s : Session K) (name? : Option String) (h : Handle) : Session K :=
  match name? with
  | none => s
  | some n => { s with names := s.names.insert n h }

/-- Detectors with the given rules and options, created in order, and cells with the
given values. -/
def create (K : Nat) (detectors : List (Rule × Config)) (cells : List (Address × Int)) :
    Except Error (Session K) := do
  let detectors ← detectors.zipIdx.mapM fun ((rule, config), tag) => do
    let d ← Detector.create rule K config tag
    return (⟨rule, d⟩ : AnyDetector K)
  return ⟨detectors, .ofList cells, ∅⟩

/-- Tell one detector of an operation. There is no reply if there is no such
detector. -/
def call? (s : Session K) (i : Nat) (op : Op Handle) : Option (Reply (Session K) Value) :=
  (s.detector? i).map fun ⟨rule, d⟩ => (d.step op).mapState fun d =>
    { s with detectors := s.detectors.set i ⟨rule, d⟩ }

/-- Do something to the state of the thread that a handle refers to. -/
def adjust (s : Session K) (h : Handle) (f : ThreadState K → ThreadState K) : Session K :=
  { s with
    detectors := s.detectors.map fun ⟨rule, d⟩ =>
      match d.registry.lookup h with
      | .error _ => ⟨rule, d⟩
      | .ok t => ⟨rule, { d with registry := d.registry.put (f t) }⟩ }

/-- Do one thing. There is no reply if it names a detector or a cell that does not
exist. -/
def act? (s : Session K) : Act Handle K → Option (Reply (Session K) Value)
  | .call i op name? => do
      let r ← s.call? i op
      return match r.result with
        | .ok (.handle h) => r.mapState (·.bind name? h)
        | _ => r
  | .load i t cell => do
      let value ← s.cells[cell]?
      let r ← s.call? i (.access t ⟨cell, .read⟩)
      return r.mapResult fun _ => .number value
  | .store i t cell value => do
      guard (s.cells.contains cell)
      let r ← s.call? i (.access t ⟨cell, .write⟩)
      return match r.result with
        | .error _ => r
        | .ok _ => r.mapState fun s => { s with cells := s.cells.insert cell value }
  | .recall i thread name? => do
      let ⟨_, d⟩ ← s.detector? i
      return match d.registry.handle? thread with
        | none => .done s .unit []
        | some h => .done (s.bind name? h) (.handle h) []
  | .observe t clock => return .done (s.adjust t (·.observe clock)) .unit []
  | .look => return .done s .unit []

end Session

end RaceWatch
