import RaceWatch.Session

/-!
What a session is to do, one thing after the other. An access may have a body: the
things the program does while it makes the access, which the detector has checked by
then and whose thread it holds no longer. The body may itself make accesses with
bodies, but none to a location whose entry an access around it still holds. In the
end the body may panic, which undoes nothing.
-/

namespace RaceWatch

/-- A sequence of things to do. -/
inductive Script (K : Nat) where
  | finish
  | act (act : Act ThreadRef K) (rest : Script K)
  | access (detector : Nat) (thread : ThreadRef) (access : Access) (body : Script K)
      (panics : Bool) (rest : Script K)

/-- One thing that was done, with its threads made out. -/
structure Outcome (K : Nat) where
  act : Act Handle K
  result : Except (Failure Error) Value
  /-- The session right after. -/
  after : Session K
  notes : List Note

/-- What came of a script, step by step. A step that names what does not exist has no
outcome and changes nothing. -/
inductive Trace (K : Nat) where
  | finish
  | act (outcome? : Option (Outcome K)) (rest : Trace K)
  /-- An access that did not pass its check. Its body has not run. -/
  | refused (outcome? : Option (Outcome K)) (rest : Trace K)
  /-- An access that passed its check, what came of its body, and the session after
  that. -/
  | access (check : Outcome K) (body : Trace K) (panics : Bool) (after : Session K)
      (rest : Trace K)

namespace Session

variable {K : Nat}

/-- Make out the threads and do one thing. -/
def perform? (s : Session K) (act : Act ThreadRef K) : Option (Outcome K) := do
  let act ← act.resolve s.resolve?
  let r ← s.act? act
  return ⟨act, r.result, r.state, r.notes⟩

/-- The session after a thing that may have been done. -/
def following (s : Session K) (outcome? : Option (Outcome K)) : Session K :=
  (outcome?.map (·.after)).getD s

end Session

/-- Whether the thing was done without an error. -/
def Outcome.succeeded {K : Nat} (o : Outcome K) : Bool :=
  match o.result with
  | .ok _ => true
  | .error _ => false

namespace Script

variable {K : Nat}

/-- Run a script in a session. The body of an access runs right after its check. -/
def run : Script K → Session K → Session K × Trace K
  | .finish, s => (s, .finish)
  | .act a rest, s =>
      let outcome? := s.perform? a
      let (final, trace) := rest.run (s.following outcome?)
      (final, .act outcome? trace)
  | .access d t a body panics rest, s =>
      let outcome? := s.perform? (.call d (.access t a) none)
      match outcome?.filter (·.succeeded) with
      | none =>
          let (final, trace) := rest.run (s.following outcome?)
          (final, .refused outcome? trace)
      | some check =>
          let (after, inner) := body.run check.after
          let (final, trace) := rest.run after
          (final, .access check inner panics after trace)

end Script

namespace Trace

variable {K : Nat}

/-- All that was noted, in order. -/
def notes : Trace K → List Note
  | .finish => []
  | .act outcome? rest | .refused outcome? rest =>
      (outcome?.map (·.notes)).getD [] ++ rest.notes
  | .access check body _ _ rest => check.notes ++ body.notes ++ rest.notes

/-- What an access hands back: the result of its check, unless its body panicked. -/
def accessResult (check : Outcome K) (panics : Bool) : Except (Failure Error) Value :=
  if panics then .error (.panic .operation) else check.result

end Trace

end RaceWatch
