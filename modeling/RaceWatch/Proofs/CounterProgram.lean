import RaceWatch.Proofs.Program
import RaceWatch.Proofs.Unsynchronized

/-!
A program that counts without a lock. A main thread starts some workers and forks each of
them. Each worker adds one to a shared cell a number of times, by a load and a store, and
then exits. The main thread joins each worker after it has exited. The program is a
transition system of which each run is one interleaving of the threads.
-/

namespace RaceWatch

namespace Counter

/-- The first thread. -/
def main : Handle := ⟨0, 1⟩

/-- The threads after that. -/
def worker (k : Nat) : Handle := ⟨0, k + 2⟩

/-- How far the threads have come. -/
structure State where
  /-- The number of threads that were started, the main thread included. -/
  started : Nat
  /-- The number of workers that were forked. -/
  forked : Nat
  /-- How often each worker has stored. -/
  made : Nat → Nat
  /-- What each worker has loaded and not yet used for a store. -/
  seen? : Nat → Option Int
  exited : Nat → Bool
  joined : Nat → Bool

namespace State

def initial : State := ⟨0, 0, fun _ => 0, fun _ => none, fun _ => false, fun _ => false⟩

/-- Whether the main thread has joined all workers. -/
def Finished (N : Nat) (σ : State) : Prop := ∀ k < N, σ.joined k = true

/-- The number of stores. -/
def total (N : Nat) (σ : State) : Nat := ∑ k ∈ Finset.range N, σ.made k

end State

/-- The value that a load has handed back. -/
def loaded? : Option (Except (Failure Error) Value) → Option Int
  | some (.ok (.number v)) => some v
  | _ => none

/-- What a thread can do next, where there are `N` workers that add to the cell `M` times
each. What the act hands back matters for a load only. -/
inductive Move {K : Nat} (N M : Nat) (x : Address) (σ : State)
    (outcome? : Option (Except (Failure Error) Value)) : Act Handle K → State → Prop
  /-- The main thread comes to be. -/
  | begin (h : σ.started = 0) :
      Move N M x σ outcome? (.call 0 .start none) { σ with started := 1 }
  /-- The main thread starts the next worker. -/
  | start (h : σ.started = σ.forked + 1) (hN : σ.forked < N) :
      Move N M x σ outcome? (.call 0 .start none) { σ with started := σ.started + 1 }
  /-- The main thread forks the worker that it has just started. -/
  | fork (h : σ.started = σ.forked + 2) :
      Move N M x σ outcome? (.call 0 (.fork main (worker σ.forked)) none)
        { σ with forked := σ.forked + 1 }
  | load {k : Nat} (hk : k < σ.forked) (hm : σ.made k < M) (hs : σ.seen? k = none) :
      Move N M x σ outcome? (.load 0 (worker k) x)
        { σ with seen? := Function.update σ.seen? k (loaded? outcome?) }
  /-- A worker stores one more than what it has loaded. -/
  | store {k : Nat} {v : Int} (hs : σ.seen? k = some v) :
      Move N M x σ outcome? (.store 0 (worker k) x (v + 1))
        { σ with
          made := Function.update σ.made k (σ.made k + 1)
          seen? := Function.update σ.seen? k none }
  | exit {k : Nat} (hk : k < σ.forked) (hm : σ.made k = M) (he : σ.exited k = false) :
      Move N M x σ outcome? (.call 0 (.exit (worker k)) none)
        { σ with exited := Function.update σ.exited k true }
  /-- After all forks the main thread joins a worker that has exited. -/
  | join {k : Nat} (hN : σ.forked = N) (he : σ.exited k = true) (hj : σ.joined k = false) :
      Move N M x σ outcome? (.call 0 (.join main (worker k)) none)
        { σ with joined := Function.update σ.joined k true }

/-- The acts that lead to a state in a session: any interleaving of the threads. -/
inductive Runs {K : Nat} (s : Session K) (N M : Nat) (x : Address) :
    List (Act Handle K) → State → Prop
  | nil : Runs s N M x [] .initial
  | snoc {acts : List (Act Handle K)} {a : Act Handle K} {σ σ' : State}
      (run : Runs s N M x acts σ) (move : Move N M x σ ((s.run acts).outcome? a) a σ') :
      Runs s N M x (acts ++ [a]) σ'

variable {K N M : Nat} {x : Address} {σ σ' : State} {a : Act Handle K}
  {outcome? : Option (Except (Failure Error) Value)} {s : Session K}
  {acts : List (Act Handle K)}

/-! ### What each move preserves -/

/-- The threads are where their programs let them be. -/
structure State.WellFormed (N M : Nat) (σ : State) : Prop where
  forked_le : σ.forked ≤ N
  started_cases : (σ.started = 0 ∧ σ.forked = 0) ∨ σ.started = σ.forked + 1 ∨
    (σ.started = σ.forked + 2 ∧ σ.forked < N)
  made_le : ∀ k, σ.made k ≤ M
  seen : ∀ k v, σ.seen? k = some v → k < σ.forked ∧ σ.made k < M
  exited : ∀ k, σ.exited k = true → k < σ.forked ∧ σ.made k = M
  joined : ∀ k, σ.joined k = true → σ.exited k = true ∧ σ.forked = N

namespace State.WellFormed

variable {k : Nat} {v : Int}

theorem initial : State.initial.WellFormed N M where
  forked_le := Nat.zero_le _
  started_cases := .inl ⟨rfl, rfl⟩
  made_le _ := Nat.zero_le _
  seen k v h := by simp [State.initial] at h
  exited k h := by simp [State.initial] at h
  joined k h := by simp [State.initial] at h

/-- A worker that was forked was started before. -/
theorem started_of_forked (h : σ.WellFormed N M) (hk : k < σ.forked) : k + 1 < σ.started := by
  have := h.started_cases
  omega

/-- A worker that has loaded has not exited. -/
theorem not_exited_of_seen (h : σ.WellFormed N M) (hs : σ.seen? k = some v) :
    σ.exited k = false := by
  rw [← Bool.not_eq_true]
  intro he
  have hlt := (h.seen k v hs).2
  have heq := (h.exited k he).2
  omega

/-- A worker that has stores left to make has not exited. -/
theorem not_exited_of_made (h : σ.WellFormed N M) (hm : σ.made k < M) : σ.exited k = false := by
  rw [← Bool.not_eq_true]
  intro he
  have heq := (h.exited k he).2
  omega

/-- Once a worker has exited, it has made all its stores. -/
theorem seen?_eq_none (h : σ.WellFormed N M) (he : σ.exited k = true) : σ.seen? k = none := by
  cases hs : σ.seen? k with
  | none => rfl
  | some v => simp [h.not_exited_of_seen hs] at he

end State.WellFormed

theorem Move.wellFormed (m : Move N M x σ outcome? a σ') (h : σ.WellFormed N M) :
    σ'.WellFormed N M := by
  obtain ⟨hforked, hstarted, hmade, hseen, hexited, hjoined⟩ := h
  cases m with
  | begin h0 =>
    refine ⟨hforked, .inr (.inl ?_), hmade, hseen, hexited, hjoined⟩
    show 1 = σ.forked + 1
    omega
  | start hs hN =>
    refine ⟨hforked, .inr (.inr ⟨?_, hN⟩), hmade, hseen, hexited, hjoined⟩
    show σ.started + 1 = σ.forked + 2
    omega
  | fork hs =>
    have hlt : σ.forked < N := by omega
    refine ⟨hlt, .inr (.inl hs), hmade, fun k v hk => ?_, fun k hk => ?_, fun k hk => ?_⟩
    · exact ⟨Nat.lt_succ_of_lt (hseen k v hk).1, (hseen k v hk).2⟩
    · exact ⟨Nat.lt_succ_of_lt (hexited k hk).1, (hexited k hk).2⟩
    · exact absurd (hjoined k hk).2 hlt.ne
  | @load k hk hm hs =>
    refine ⟨hforked, hstarted, hmade, fun j v hj => ?_, hexited, hjoined⟩
    by_cases hjk : j = k
    · subst hjk
      exact ⟨hk, hm⟩
    · exact hseen j v (by simpa [Function.update_apply, hjk] using hj)
  | @store k v hs =>
    obtain ⟨hk, hm⟩ := hseen k v hs
    refine ⟨hforked, hstarted, fun j => ?_, fun j u hj => ?_, fun j hj => ?_, hjoined⟩
    · by_cases hjk : j = k
      · subst hjk
        simpa using hm
      · simpa [Function.update_apply, hjk] using hmade j
    · by_cases hjk : j = k
      · subst hjk
        simp at hj
      · simpa [Function.update_apply, hjk] using
          hseen j u (by simpa [Function.update_apply, hjk] using hj)
    · have hjk : j ≠ k := by
        rintro rfl
        have := (hexited j hj).2
        omega
      simpa [Function.update_apply, hjk] using hexited j hj
  | @exit k hk hm he =>
    refine ⟨hforked, hstarted, hmade, hseen, fun j hj => ?_, fun j hj => ?_⟩
    · by_cases hjk : j = k
      · subst hjk
        exact ⟨hk, hm⟩
      · exact hexited j (by simpa [Function.update_apply, hjk] using hj)
    · refine ⟨?_, (hjoined j hj).2⟩
      by_cases hjk : j = k
      · simp [hjk]
      · simpa [Function.update_apply, hjk] using (hjoined j hj).1
  | @join k hN he hj =>
    refine ⟨hforked, hstarted, hmade, hseen, hexited, fun j hj => ?_⟩
    by_cases hjk : j = k
    · subst hjk
      exact ⟨he, hN⟩
    · exact hjoined j (by simpa [Function.update_apply, hjk] using hj)

theorem Runs.wellFormed (h : Runs s N M x acts σ) : σ.WellFormed N M := by
  induction h with
  | nil => exact .initial
  | snoc _ move ih => exact move.wellFormed ih

theorem Runs.meddles_eq_false (h : Runs s N M x acts σ) : ∀ a ∈ acts, a.meddles = false := by
  induction h with
  | nil => simp
  | snoc _ move ih =>
    intro a ha
    rcases List.mem_append.mp ha with ha | ha
    · exact ih a ha
    · obtain rfl := List.mem_singleton.mp ha
      cases move <;> rfl

/-! ### The operations of a run -/

/-- What the threads of the program tell a detector of. -/
def Belongs (x : Address) : Op Handle → Prop
  | .start => True
  | .fork p c | .join p c => p = main ∧ ∃ k, c = worker k
  | .exit t => ∃ k, t = worker k
  | .access t a => a.address = x ∧ ∃ k, t = worker k
  | .acquire .. | .release .. | .forgetLock _ | .init _ | .forget _ => False

theorem Move.exists_op (m : Move N M x σ outcome? a σ') : ∃ op, a.op? = some op ∧ Belongs x op := by
  cases m with
  | begin | start => exact ⟨_, rfl, trivial⟩
  | fork => exact ⟨_, rfl, rfl, _, rfl⟩
  | load | store => exact ⟨_, rfl, rfl, _, rfl⟩
  | exit => exact ⟨_, rfl, _, rfl⟩
  | join => exact ⟨_, rfl, rfl, _, rfl⟩

theorem ops_concat {op : Op Handle} (hop : a.op? = some op) :
    Act.ops (acts ++ [a]) = Act.ops acts ++ [op] := by
  simp [Act.ops, hop]

theorem Runs.belongs (h : Runs s N M x acts σ) : ∀ op ∈ Act.ops acts, Belongs x op := by
  induction h with
  | nil => simp [Act.ops]
  | snoc _ move ih =>
    obtain ⟨op, hop, hbelongs⟩ := move.exists_op
    rw [ops_concat hop]
    intro op' h'
    rcases List.mem_append.mp h' with h' | h'
    · exact ih op' h'
    · obtain rfl := List.mem_singleton.mp h'
      exact hbelongs

/-- A thread is not forked once any has been joined. -/
def InOrder (op op' : Op Handle) : Prop := (∃ p c, op = .join p c) → ∀ p c, op' ≠ .fork p c

/-- A worker is joined only when all have been forked. -/
theorem Runs.forked_eq (h : Runs s N M x acts σ) {p c : Handle}
    (hmem : .join p c ∈ Act.ops acts) : σ.forked = N := by
  induction h with
  | nil => simp [Act.ops] at hmem
  | @snoc acts a σ σ' run move ih =>
    obtain ⟨op, hop, -⟩ := move.exists_op
    rw [ops_concat hop, List.mem_append, List.mem_singleton] at hmem
    rcases hmem with hmem | rfl
    · have hN := ih hmem
      cases move with
      | fork hs =>
        have := run.wellFormed.started_cases
        omega
      | begin | start | load | store | exit | join => exact hN
    · cases move with
      | join hN => exact hN
      | begin | start | fork | load | store | exit => simp [Act.op?] at hop

theorem Runs.inOrder (h : Runs s N M x acts σ) : (Act.ops acts).Pairwise InOrder := by
  induction h with
  | nil => exact .nil
  | @snoc acts a σ σ' run move ih =>
    obtain ⟨op, hop, -⟩ := move.exists_op
    rw [ops_concat hop]
    refine List.pairwise_append.mpr ⟨ih, List.pairwise_singleton _ _, fun op₁ h₁ op₂ h₂ => ?_⟩
    obtain rfl := List.mem_singleton.mp h₂
    rintro ⟨p, c, rfl⟩ q d rfl
    have hN := run.forked_eq h₁
    cases move with
    | fork hs =>
      have := run.wellFormed.started_cases
      omega
    | begin | start | load | store | exit | join => simp [Act.op?] at hop

end Counter

end RaceWatch
