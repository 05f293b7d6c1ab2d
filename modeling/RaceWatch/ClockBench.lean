import RaceWatch.Note
import RaceWatch.VectorClock

/-!
A row of vector clocks that are worked on and compared with each other, each of them
referred to by its position.
-/

namespace RaceWatch

namespace ClockBench

variable {K : Nat}

/-- One use of the clock at position `a`, together with the one at `b` if there are
two. -/
inductive Step where
  | merge (a b : Nat)
  | copy (a b : Nat)
  | reset (a : Nat)
  | happenedBefore (a b : Nat)
  | concurrent (a b : Nat)
  | equal (a b : Nat)
  | get (a thread : Nat)
  | set (a thread value : Nat)
  | increment (a thread : Nat)
  /-- Whether a point of a thread's history is known to the clock. -/
  | epochBefore (a thread clock : Nat)
deriving DecidableEq

inductive Answer where
  | done
  | flag (value : Bool)
  | coordinate (value? : Option Nat)
deriving DecidableEq

/-- What a step answers, and the clocks after it. -/
structure Outcome (K : Nat) where
  result : Except (Failure Fatal) Answer
  after : List (VectorClock K)

/-- What was noted: the error, if there was one. -/
def Outcome.notes (o : Outcome K) : List Note :=
  match o.result with
  | .error (.error cause) => [cause.note]
  | _ => []

/-- Do one step. There is no outcome if there is no clock at a position. -/
def step? (clocks : List (VectorClock K)) : Step → Option (Outcome K)
  | .merge a b => do
      let merged := (← clocks[a]?).merge (← clocks[b]?)
      return ⟨.ok .done, clocks.set a merged⟩
  | .copy a b => return ⟨.ok .done, clocks.set a (← clocks[b]?)⟩
  | .reset a => some ⟨.ok .done, clocks.set a .zero⟩
  | .happenedBefore a b => do
      let before := decide ((← clocks[a]?) ≤ (← clocks[b]?))
      return ⟨.ok (.flag before), clocks⟩
  | .concurrent a b => do
      let unordered := decide ((← clocks[a]?).Concurrent (← clocks[b]?))
      return ⟨.ok (.flag unordered), clocks⟩
  | .equal a b => do
      let same := decide ((← clocks[a]?) = (← clocks[b]?))
      return ⟨.ok (.flag same), clocks⟩
  | .get a thread => return ⟨.ok (.coordinate ((← clocks[a]?).get? thread)), clocks⟩
  | .set a thread value => do
      return match (← clocks[a]?).set thread value with
        | .error cause => ⟨.error (.error cause), clocks⟩
        | .ok c => ⟨.ok .done, clocks.set a c⟩
  | .increment a thread => do
      return match (← clocks[a]?).increment thread with
        | .error cause => ⟨.error (.error cause), clocks⟩
        | .ok (value, c) => ⟨.ok (.coordinate (some value)), clocks.set a c⟩
  | .epochBefore a thread clock => do
      let c ← clocks[a]?
      return match Epoch.construct thread clock with
        | .error part => ⟨.error (.panic (.misfit part)), clocks⟩
        | .ok e => match e.happenedBefore c with
          | .error cause => ⟨.error (.error cause), clocks⟩
          | .ok before => ⟨.ok (.flag before), clocks⟩

/-- What each of some steps in turn leads to. -/
def run (clocks : List (VectorClock K)) : List Step → List (Option (Outcome K))
  | [] => []
  | step :: rest =>
      let o? := step? clocks step
      o? :: run ((o?.map (·.after)).getD clocks) rest

end ClockBench

end RaceWatch
