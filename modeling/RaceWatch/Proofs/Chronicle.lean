import RaceWatch.Detector
import Mathlib

/-!
What happened in a run, and what happened before what. A chronicle lists the operations
of a run with their results. The order between its operations is defined from the
chronicle alone. No clock occurs in it, so that it can serve as the measure of the
clocks.
-/

namespace RaceWatch

namespace Op

variable {ρ : Type}

/-- The thread that makes an operation. A fork or a join is made by the parent. -/
def actor? : Op ρ → Option ρ
  | .fork p _ | .join p _ => some p
  | .exit t | .acquire _ t | .release _ t | .access t _ => some t
  | .start | .forgetLock _ | .init _ | .forget _ => none

/-- Whether the operation hands on what a thread knows before that thread begins a new
event. If that event cannot begin, the knowledge has been handed on all the same. -/
def handsOn : Op ρ → Bool
  | .fork .. | .join .. | .release .. => true
  | _ => false

/-- Whether the operation does away with what a lock had published. -/
def replaces (lock : Address) : Op ρ → Bool
  | .release l _ | .forgetLock l => l == lock
  | _ => false

end Op

/-- One operation of a run and what it handed back. -/
structure Event where
  op : Op Handle
  result : Except (Failure Error) Value
deriving DecidableEq

namespace Event

def succeeded (e : Event) : Bool :=
  match e.result with
  | .ok _ => true
  | .error _ => false

/-- Whether a thread had used up all its clock values. -/
def overflowed (e : Event) : Bool :=
  match e.result with
  | .error (.error (.fatal (.clockOverflow ..))) => true
  | _ => false

/-- Whether the operation takes part in the order. An operation that failed does not,
unless it had handed on what it had to before it ran out of clock values. -/
def effective (e : Event) : Bool := e.succeeded || (e.overflowed && e.op.handsOn)

def actor? (e : Event) : Option Nat := e.op.actor?.map (·.thread)

theorem effective_of_succeeded {e : Event} (h : e.succeeded = true) : e.effective = true := by
  simp [effective, h]

theorem exists_ok_of_succeeded {e : Event} (h : e.succeeded = true) : ∃ v, e.result = .ok v := by
  cases hr : e.result with
  | ok v => exact ⟨v, rfl⟩
  | error f => simp [succeeded, hr] at h

theorem not_overflowed_of_succeeded {e : Event} (h : e.succeeded = true) :
    e.overflowed = false := by
  cases hr : e.result with
  | ok => simp [overflowed, hr]
  | error => simp [succeeded, hr] at h

/-- An access takes part in the order exactly if it succeeds. -/
theorem effective_of_access {e : Event} {h : Handle} {a : Access} (hop : e.op = .access h a) :
    e.effective = e.succeeded := by
  simp [effective, hop, Op.handsOn]

/-- Where nothing overflows, the operations that take part are those that succeed. -/
theorem succeeded_of_effective {e : Event} (h : e.effective = true) (ho : e.overflowed = false) :
    e.succeeded = true := by
  simpa [effective, ho] using h

end Event

/-- The operations of a run, oldest first. An operation is referred to by its
position. -/
abbrev Chronicle := List Event

namespace Chronicle

/-- No operation of the run was refused because a thread had used up its clock
values. -/
def NoOverflow (H : Chronicle) : Prop := ∀ e ∈ H, e.overflowed = false

instance (H : Chronicle) : Decidable H.NoOverflow := List.decidableBAll _ _

/-- The operation at a position, if it takes part in the order. -/
def At (H : Chronicle) (i : Nat) (e : Event) : Prop := H[i]? = some e ∧ e.effective = true

/-- The four sources of order: the program of one thread, a fork, a join, and the
latest release of a lock, which a later acquire sees unless the lock was forgotten in
between. -/
inductive Edge (H : Chronicle) : Nat → Nat → Prop
  | program {i j t : Nat} {e f : Event} (hij : i < j) (hi : H.At i e) (hj : H.At j f)
      (he : e.actor? = some t) (hf : f.actor? = some t) : Edge H i j
  | fork {i j : Nat} {p c : Handle} {e f : Event} (hij : i < j) (hi : H.At i e) (hj : H.At j f)
      (he : e.op = .fork p c) (hf : f.actor? = some c.thread) : Edge H i j
  | join {i j : Nat} {p c : Handle} {e f : Event} (hij : i < j) (hi : H.At i e) (hj : H.At j f)
      (he : e.actor? = some c.thread) (hf : f.op = .join p c) : Edge H i j
  | lock {i j : Nat} {lock : Address} {t u : Handle} {e f : Event} (hij : i < j)
      (hi : H.At i e) (hj : H.At j f) (he : e.op = .release lock t) (hf : f.op = .acquire lock u)
      (latest : ∀ k g, i < k → k < j → H.At k g → g.op.replaces lock = false) : Edge H i j

/-- The least transitive relation that contains the four sources. -/
def Precedes (H : Chronicle) : Nat → Nat → Prop := Relation.TransGen H.Edge

/-- A direct reason for one operation to happen before another. Besides the four
sources there is the fork of a thread that is joined later on: what the thread learnt
by the fork is learnt by the join, even if the thread did nothing itself in between. -/
inductive Link (H : Chronicle) : Nat → Nat → Prop
  | edge {i j : Nat} (h : H.Edge i j) : Link H i j
  | relay {i j : Nat} {p q c c' : Handle} {e f : Event} (hij : i < j) (hi : H.At i e)
      (hj : H.At j f) (he : e.op = .fork p c) (hf : f.op = .join q c')
      (hc : c.thread = c'.thread) : Link H i j

/-- The order of the operations of a run. -/
def HappensBefore (H : Chronicle) : Nat → Nat → Prop := Relation.TransGen H.Link

variable {H : Chronicle} {i j k : Nat}

theorem At.unique {e f : Event} (h : H.At i e) (h' : H.At i f) : e = f :=
  Option.some.inj (h.1.symm.trans h'.1)

theorem Edge.lt (h : H.Edge i j) : i < j := by
  cases h <;> assumption

theorem Link.lt (h : H.Link i j) : i < j := by
  cases h with
  | edge h => exact h.lt
  | relay hij => exact hij

theorem HappensBefore.lt (h : H.HappensBefore i j) : i < j := by
  induction h with
  | single h => exact h.lt
  | tail _ h ih => exact ih.trans h.lt

theorem HappensBefore.trans (h : H.HappensBefore i j) (h' : H.HappensBefore j k) :
    H.HappensBefore i k :=
  Relation.TransGen.trans h h'

/-- What all links pass on is passed on by the order. -/
theorem HappensBefore.passes {P : Event → Prop} {e : Event} (h : H.HappensBefore i j)
    (hlink : ∀ i j e, H.Link i j → H.At i e → P e → ∃ f, H.At j f ∧ P f) (hi : H.At i e)
    (he : P e) : ∃ f, H.At j f ∧ P f := by
  induction h with
  | single h => exact hlink _ _ e h hi he
  | tail _ h ih =>
    obtain ⟨f, hf, hp⟩ := ih
    exact hlink _ _ f h hf hp

theorem Precedes.happensBefore (h : H.Precedes i j) : H.HappensBefore i j :=
  Relation.TransGen.mono (fun _ _ => Link.edge) _ _ h

/-! ### Links by way of a thread

All links but those by a lock lead through a thread: the first operation leaves that
thread with what it knows, and the second one draws on that. -/

end Chronicle

/-- Whether an operation leaves a thread with all that the acting thread knows. -/
def Event.Tells (e : Event) (t : Nat) : Prop :=
  e.actor? = some t ∨ ∃ p c, e.op = .fork p c ∧ c.thread = t

/-- Whether the thread that acts in an operation comes to know all that a thread
knows. -/
def Event.Asks (e : Event) (t : Nat) : Prop :=
  e.actor? = some t ∨ ∃ p c, e.op = .join p c ∧ c.thread = t

namespace Chronicle

variable {H : Chronicle} {i j k : Nat}

theorem link_of_tells {t : Nat} {e f : Event} (hij : i < j) (hi : H.At i e) (hj : H.At j f)
    (he : e.Tells t) (hf : f.Asks t) : H.Link i j := by
  rcases he with he | ⟨p, c, he, rfl⟩
  · rcases hf with hf | ⟨q, c, hf, rfl⟩
    · exact .edge (.program hij hi hj he hf)
    · exact .edge (.join hij hi hj he hf)
  · rcases hf with hf | ⟨q, c', hf, hc⟩
    · exact .edge (.fork hij hi hj he hf)
    · exact .relay hij hi hj he hf hc.symm

/-- Every link leads through a thread or through the latest release of a lock. -/
theorem Link.cases (h : H.Link i j) : i < j ∧ ∃ e f, H.At i e ∧ H.At j f ∧
    ((∃ t, e.Tells t ∧ f.Asks t) ∨ ∃ lock t u, e.op = .release lock t ∧ f.op = .acquire lock u ∧
      ∀ k g, i < k → k < j → H.At k g → g.op.replaces lock = false) := by
  refine ⟨h.lt, ?_⟩
  cases h with
  | edge h => cases h with
    | program _ hi hj he hf => exact ⟨_, _, hi, hj, .inl ⟨_, .inl he, .inl hf⟩⟩
    | fork _ hi hj he hf => exact ⟨_, _, hi, hj, .inl ⟨_, .inr ⟨_, _, he, rfl⟩, .inl hf⟩⟩
    | join _ hi hj he hf => exact ⟨_, _, hi, hj, .inl ⟨_, .inl he, .inr ⟨_, _, hf, rfl⟩⟩⟩
    | lock _ hi hj he hf latest => exact ⟨_, _, hi, hj, .inr ⟨_, _, _, he, hf, latest⟩⟩
  | relay _ hi hj he hf hc =>
    exact ⟨_, _, hi, hj, .inl ⟨_, .inr ⟨_, _, he, hc⟩, .inr ⟨_, _, hf, rfl⟩⟩⟩

end Chronicle

/-! ### The chronicle of a detector -/

namespace Detector

variable {rule : Rule} {K : Nat}

/-- What happens when a detector is told of some operations. -/
def chronicle (d : Detector rule K) : List (Op Handle) → Chronicle
  | [] => []
  | op :: rest => ⟨op, (d.step op).result⟩ :: (d.step op).state.chronicle rest

/-- The detector after the first operations of a run. -/
def after (d : Detector rule K) (ops : List (Op Handle)) (n : Nat) : Detector rule K :=
  d.run (ops.take n)

theorem map_result_chronicle (d : Detector rule K) (ops : List (Op Handle)) :
    (d.chronicle ops).map (·.result) = d.results ops := by
  induction ops generalizing d with
  | nil => rfl
  | cons op rest ih => simp [chronicle, results, ih]

theorem map_op_chronicle (d : Detector rule K) (ops : List (Op Handle)) :
    (d.chronicle ops).map (·.op) = ops := by
  induction ops generalizing d with
  | nil => rfl
  | cons op rest ih => simp [chronicle, ih]

theorem length_chronicle (d : Detector rule K) (ops : List (Op Handle)) :
    (d.chronicle ops).length = ops.length := by
  have hops := d.map_op_chronicle ops
  rw [← hops, List.length_map, hops]

theorem chronicle_append (d : Detector rule K) (ops ops' : List (Op Handle)) :
    d.chronicle (ops ++ ops') = d.chronicle ops ++ (d.run ops).chronicle ops' := by
  induction ops generalizing d with
  | nil => rfl
  | cons op rest ih =>
    rw [List.cons_append, chronicle, ih]
    rfl

theorem run_append (d : Detector rule K) (ops ops' : List (Op Handle)) :
    d.run (ops ++ ops') = (d.run ops).run ops' := by
  simp [run]

theorem run_concat (d : Detector rule K) (ops : List (Op Handle)) (op : Op Handle) :
    d.run (ops ++ [op]) = ((d.run ops).step op).state :=
  d.run_append ops [op]

@[simp] theorem after_zero (d : Detector rule K) (ops : List (Op Handle)) : d.after ops 0 = d :=
  rfl

theorem after_length (d : Detector rule K) (ops : List (Op Handle)) :
    d.after ops ops.length = d.run ops := by
  rw [after, List.take_length]

theorem after_succ (d : Detector rule K) {ops : List (Op Handle)} {i : Nat} {op : Op Handle}
    (h : ops[i]? = some op) : d.after ops (i + 1) = ((d.after ops i).step op).state := by
  rw [after, List.take_add_one, h, Option.toList_some, run_concat]
  rfl

theorem after_succ_of_none (d : Detector rule K) {ops : List (Op Handle)} {i : Nat}
    (h : ops[i]? = none) : d.after ops (i + 1) = d.after ops i := by
  simp [after, List.take_add_one, h]

theorem getElem?_chronicle (d : Detector rule K) (ops : List (Op Handle)) (i : Nat) :
    (d.chronicle ops)[i]? = ops[i]?.map fun op => ⟨op, ((d.after ops i).step op).result⟩ := by
  induction ops generalizing d i with
  | nil => simp [chronicle]
  | cons op rest ih =>
    cases i with
    | zero => rfl
    | succ i =>
      rw [chronicle, List.getElem?_cons_succ, ih, List.getElem?_cons_succ]
      rfl

/-- Each event of a chronicle is one step of the detector. -/
theorem step_of_getElem? {d : Detector rule K} {ops : List (Op Handle)} {i : Nat} {e : Event}
    (h : (d.chronicle ops)[i]? = some e) :
    e.result = ((d.after ops i).step e.op).result ∧
      d.after ops (i + 1) = ((d.after ops i).step e.op).state := by
  rw [getElem?_chronicle, Option.map_eq_some_iff] at h
  obtain ⟨op, hop, rfl⟩ := h
  exact ⟨rfl, d.after_succ hop⟩

/-! ### Three short runs -/

/-- A detector for three threads. -/
def forThree (rule : Rule) : Detector rule 3 := ⟨.default, .empty 0, .empty, .empty, 0⟩

theorem create_forThree (rule : Rule) : create rule 3 .default 0 = .ok (forThree rule) := rfl

/-- Two threads write to one location. -/
def clash : List (Op Handle) :=
  [.start, .start, .access ⟨0, 1⟩ ⟨7, .write⟩, .access ⟨0, 2⟩ ⟨7, .write⟩]

/-- Two threads write to one location. In between the first one forks a third thread and
the second one joins it, and that thread does nothing at all. -/
def relay : List (Op Handle) :=
  [.start, .start, .start, .access ⟨0, 1⟩ ⟨7, .write⟩, .fork ⟨0, 1⟩ ⟨0, 3⟩,
    .join ⟨0, 2⟩ ⟨0, 3⟩, .access ⟨0, 2⟩ ⟨7, .write⟩]

/-- Two threads share the reads of a location, a third one settles them, and the first one
reads again. -/
def readTogether : List (Op Handle) :=
  [.start, .start, .start, .access ⟨0, 1⟩ ⟨7, .read⟩, .access ⟨0, 2⟩ ⟨7, .read⟩,
    .access ⟨0, 3⟩ ⟨7, .write⟩, .access ⟨0, 1⟩ ⟨7, .read⟩]

theorem chronicle_relay (rule : Rule) : (forThree rule).chronicle relay =
    [⟨.start, .ok (.handle ⟨0, 1⟩)⟩, ⟨.start, .ok (.handle ⟨0, 2⟩)⟩,
      ⟨.start, .ok (.handle ⟨0, 3⟩)⟩, ⟨.access ⟨0, 1⟩ ⟨7, .write⟩, .ok .unit⟩,
      ⟨.fork ⟨0, 1⟩ ⟨0, 3⟩, .ok .unit⟩, ⟨.join ⟨0, 2⟩ ⟨0, 3⟩, .ok .unit⟩,
      ⟨.access ⟨0, 2⟩ ⟨7, .write⟩, .ok .unit⟩] := by
  cases rule <;> decide

theorem noOverflow_relay (rule : Rule) : ((forThree rule).chronicle relay).NoOverflow := by
  rw [chronicle_relay]
  decide

/-- The only edge that leads on from the first access leads to the fork, and none leads
on from there, since the third thread does nothing. -/
theorem edge_relay {rule : Rule} {i j : Nat} (hi : i = 3 ∨ i = 4)
    (h : ((forThree rule).chronicle relay).Edge i j) : i = 3 ∧ j = 4 := by
  have hij := h.lt
  have hj : j = 4 ∨ j = 5 ∨ j = 6 := by
    have hlt : j < 7 := by
      cases h with
      | program _ _ hj | fork _ _ hj | join _ _ hj | lock _ _ hj =>
        exact (List.getElem?_eq_some_iff.mp hj.1).1
    omega
  rw [chronicle_relay] at h
  cases h with
  | program _ he hf | fork _ he hf | join _ he hf =>
    obtain ⟨he, -⟩ := he
    obtain ⟨hf, -⟩ := hf
    rcases hi with rfl | rfl <;> rcases hj with rfl | rfl | rfl <;> cases he <;> cases hf <;>
      grind [Event.actor?, Op.actor?]
  | lock _ he hf hop hop' =>
    obtain ⟨he, -⟩ := he
    rcases hi with rfl | rfl <;> cases he <;> simp at hop

theorem not_precedes_relay (rule : Rule) : ¬ ((forThree rule).chronicle relay).Precedes 3 6 := by
  intro h
  have hreach : ∀ j, ((forThree rule).chronicle relay).Precedes 3 j → j = 4 := by
    intro j h
    induction h with
    | single hedge => exact (edge_relay (.inl rfl) hedge).2
    | tail _ hedge ih => exact (edge_relay (.inr ih) hedge).2
  exact absurd (hreach 6 h) (by decide)

end Detector

end RaceWatch
