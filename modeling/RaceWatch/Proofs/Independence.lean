import RaceWatch.Proofs.Exclusion
import RaceWatch.Proofs.Parts
import RaceWatch.Proofs.Transcript

/-!
Operations that have nothing to do with each other. Two operations that name different threads
and are not about one lock or one location can be told to a detector in either order, and so
two programs that differ only in the order of such operations come to the same.
-/

namespace RaceWatch

/-- Two operations that name different threads and are not about one lock or one location. A
new thread gets the next identity, so that its start depends on the starts before it. -/
structure Op.Independent (op op' : Op Handle) : Prop where
  apart : ∀ part, op.Concerns part → ¬op'.Concerns part
  ne_start : op ≠ .start
  ne_start' : op' ≠ .start

theorem Op.independent_iff {op op' : Op Handle} : op.Independent op' ↔
    (op ≠ .start ∧ op' ≠ .start) ∧ (∀ h ∈ op.threads, h ∉ op'.threads) ∧
      (∀ lock ∈ op.lock?, lock ∉ op'.lock?) ∧ ∀ x ∈ op.location?, x ∉ op'.location? := by
  constructor
  · intro h
    exact ⟨⟨h.ne_start, h.ne_start'⟩, fun t => h.apart (.thread t), fun l => h.apart (.lock l),
      fun x => h.apart (.location x)⟩
  · rintro ⟨⟨hstart, hstart'⟩, hthreads, hlocks, hlocations⟩
    refine ⟨fun part => ?_, hstart, hstart'⟩
    cases part with
    | thread h => exact hthreads h
    | lock lock => exact hlocks lock
    | location x => exact hlocations x

instance (op op' : Op Handle) : Decidable (op.Independent op') :=
  decidable_of_iff _ Op.independent_iff.symm

theorem Op.Independent.symm {op op' : Op Handle} (h : op.Independent op') : op'.Independent op :=
  ⟨fun part hop' hop => h.apart part hop hop', h.ne_start', h.ne_start⟩

/-! ### Either order -/

namespace Detector

variable {rule : Rule} {K : Nat} {d : Detector rule K} {op op' : Op Handle}

/-- An operation does the same before and after one that it is independent of. -/
theorem Sound.mirrors_step (hd : d.Sound) (h : op.Independent op') :
    Mirrors op d (d.step op').state :=
  hd.mirrors h.ne_start (config_step d op') fun part hop =>
    hd.sameAt_step h.ne_start' (h.apart part hop)

/-- Two independent operations can be told in either order. -/
theorem Sound.step_comm (hd : d.Sound) (h : op.Independent op') :
    ((d.step op').state.step op).state = ((d.step op).state.step op').state := by
  have hfirst := hd.mirrors_step h
  have hsecond := hd.mirrors_step h.symm
  have hsound := (hd.follows_step op).sound hd
  have hsound' := (hd.follows_step op').sound hd
  refine eq_of_sameAt ?_ ?_ ?_ fun part => ?_
  · simp only [config_step]
  · simp only [tag_step]
  · have htotal := hfirst.total_eq
    have htotal' := hsecond.total_eq
    omega
  by_cases hop : op.Concerns part
  · -- Only the first operation is about this part, and it finds it as it was.
    have hkept := hd.sameAt_step h.ne_start' (h.apart part hop)
    have hkept' := hsound.sameAt_step h.ne_start' (h.apart part hop)
    exact hkept'.symm.trans (hfirst.sameAt part hkept)
  · have hkept := hd.sameAt_step h.ne_start hop
    have hkept' := hsound'.sameAt_step h.ne_start hop
    exact (hkept'.symm.trans (hsecond.sameAt part hkept)).symm

end Detector

/-! ### Programs -/

/-- Two acts whose operations are independent. -/
def Act.Independent {K : Nat} (a b : Act Handle K) : Prop :=
  ∃ op ∈ a.op?, ∃ op' ∈ b.op?, op.Independent op'

instance {K : Nat} (a b : Act Handle K) : Decidable (a.Independent b) :=
  inferInstanceAs (Decidable (∃ op ∈ a.op?, ∃ op' ∈ b.op?, op.Independent op'))

theorem Act.Independent.symm {K : Nat} {a b : Act Handle K} (h : a.Independent b) :
    b.Independent a := by
  obtain ⟨op, ha, op', hb, hop⟩ := h
  exact ⟨op', hb, op, ha, hop.symm⟩

/-- Two programs differ in the order of two acts that follow one another and are
independent. -/
inductive Swap {K : Nat} : List (Act Handle K) → List (Act Handle K) → Prop
  | mk (before : List (Act Handle K)) {a b : Act Handle K} (after : List (Act Handle K))
      (independent : a.Independent b) :
      Swap (before ++ a :: b :: after) (before ++ b :: a :: after)

namespace Session

variable {rule : Rule} {K : Nat} {s : Session K} {d : Detector rule K} {a b : Act Handle K}
  {acts acts' : List (Act Handle K)} {op op' : Op Handle}

theorem ext_cells {s s' : Session K} (hdetectors : s.detectors = s'.detectors)
    (hcells : ∀ x : Address, s.cells[x]? = s'.cells[x]?) (hnames : s.names = s'.names) :
    s = s' := by
  obtain ⟨detectors, cells, names⟩ := s
  obtain ⟨detectors', cells', names'⟩ := s'
  obtain rfl : detectors = detectors' := hdetectors
  obtain rfl : names = names' := hnames
  obtain rfl : cells = cells' := Std.ExtTreeMap.ext_getElem? hcells
  rfl

/-- Only the start of a thread gives a name to a handle. -/
theorem names_next (hop : a.op? = some op) (hstart : op ≠ .start) :
    (s.next a).names = s.names := by
  rw [next]
  cases hr : s.act? a with
  | none => rfl
  | some r =>
    cases a with
    | call i op' name? =>
      obtain rfl := Option.some.inj hop
      obtain ⟨r₀, hcall, hr⟩ := Option.bind_eq_some_iff.mp hr
      obtain ⟨rule, d, hd, rfl⟩ := call?_eq_some.mp hcall
      have hr := Option.some.inj hr
      rw [Reply.result_mapState] at hr
      split at hr
      · next h hstep => exact absurd (Detector.eq_start_of_result hstep) hstart
      · subst hr
        rfl
    | load i t cell =>
      obtain ⟨value, -, hr⟩ := Option.bind_eq_some_iff.mp hr
      obtain ⟨r₀, hcall, hr⟩ := Option.bind_eq_some_iff.mp hr
      obtain ⟨rule, d, hd, rfl⟩ := call?_eq_some.mp hcall
      obtain rfl := Option.some.inj hr
      rfl
    | store i t cell value =>
      obtain ⟨-, -, hr⟩ := Option.bind_eq_some_iff.mp hr
      obtain ⟨r₀, hcall, hr⟩ := Option.bind_eq_some_iff.mp hr
      obtain ⟨rule, d, hd, rfl⟩ := call?_eq_some.mp hcall
      have hr := Option.some.inj hr
      split at hr <;> subst hr <;> rfl
    | «recall» | observe | look => simp [Act.op?] at hop

/-- What is stored to a cell is stored by an access to it. -/
theorem location?_of_stored? {x : Address} {value : Int} (hop : a.op? = some op)
    (h : a.stored? x = some value) : op.location? = some x := by
  obtain ⟨i, t, rfl⟩ := Act.stored?_eq_some.mp h
  obtain rfl := Option.some.inj hop
  rfl

theorem written?_eq_none_of_location? {x : Address} (hop : a.op? = some op)
    (h : op.location? ≠ some x) (result : Except (Failure Error) Value) :
    a.written? x result = none := by
  refine Act.written?_eq_none ?_ result
  cases hs : a.stored? x with
  | none => rfl
  | some value => exact absurd (location?_of_stored? hop hs) h

/-- An act hands back the same before and after one that it is independent of. -/
theorem outcome?_next (hw : s.Watches d) (hd : d.Sound) (h : a.Independent b) :
    (s.next b).outcome? a = s.outcome? a := by
  obtain ⟨op, ha, op', hb, hop⟩ := h
  cases hout : s.outcome? b with
  | none => rw [next_of_outcome?_eq_none hout]
  | some result =>
    have htells := tells_of_op? hw hb hout
    refine outcome?_congr hw htells.watches ha (hd.mirrors_step hop).result_eq ?_
    rintro t c rfl
    have hlocation : op'.location? ≠ some c.address := hop.apart (.location c.address) rfl
    rw [htells.cells_eq, written?_eq_none_of_location? hb hlocation, Option.none_or]

/-- Two independent acts can be done in either order. -/
theorem next_comm (hw : s.Watches d) (hd : d.Sound) (h : a.Independent b) :
    (s.next a).next b = (s.next b).next a := by
  have hab := outcome?_next hw hd h
  have hba := outcome?_next hw hd h.symm
  cases houta : s.outcome? a with
  | none => rw [next_of_outcome?_eq_none houta, next_of_outcome?_eq_none (hab.trans houta)]
  | some result =>
    cases houtb : s.outcome? b with
    | none => rw [next_of_outcome?_eq_none houtb, next_of_outcome?_eq_none (hba.trans houtb)]
    | some result' =>
      obtain ⟨op, ha, op', hb, hop⟩ := h
      have hfirst := tells_of_op? hw ha houta
      have hfirst' := tells_of_op? hw hb houtb
      have hsecond := tells_of_op? hfirst.watches hb (hba.trans houtb)
      have hsecond' := tells_of_op? hfirst'.watches ha (hab.trans houta)
      refine ext_cells ?_ (fun x => ?_) ?_
      · have hdetectors := hsecond.watches
        have hdetectors' := hsecond'.watches
        rw [Watches] at hdetectors hdetectors'
        rw [hdetectors, hdetectors', hd.step_comm hop]
      · rw [hsecond.cells_eq, hfirst.cells_eq, hsecond'.cells_eq, hfirst'.cells_eq]
        by_cases hx : op.location? = some x
        · have hx' : op'.location? ≠ some x := hop.apart (.location x) hx
          simp only [written?_eq_none_of_location? hb hx', Option.none_or]
        · simp only [written?_eq_none_of_location? ha hx, Option.none_or]
      · rw [names_next hb hop.ne_start', names_next ha hop.ne_start, names_next ha hop.ne_start,
          names_next hb hop.ne_start']

/-- Every session that a program with one detector reaches has that detector in order. -/
theorem exists_watches_run {config : Config} {cells : List (Address × Int)}
    (h : create K [(rule, config)] cells = .ok s) (hplain : ∀ a ∈ acts, a.meddles = false) :
    ∃ d : Detector rule K, (s.run acts).Watches d ∧ d.Sound := by
  induction acts using List.reverseRecOn with
  | nil =>
    obtain ⟨d, hd, hw, -⟩ := create_eq_ok h
    exact ⟨d, hw, Detector.sound_create hd⟩
  | append_singleton acts a ih =>
    obtain ⟨d, hw, hd⟩ := ih fun a ha => hplain a (List.mem_append_left _ ha)
    have ha : a.meddles = false := hplain a (by simp)
    rw [run_concat]
    cases hop : a.op? with
    | none => exact ⟨d, (next_of_op?_eq_none hw hop ha).1, hd⟩
    | some op =>
      cases hout : (s.run acts).outcome? a with
      | none =>
        rw [next_of_outcome?_eq_none hout]
        exact ⟨d, hw, hd⟩
      | some result => exact ⟨_, (tells_of_op? hw hop hout).watches, (hd.follows_step op).sound hd⟩

theorem run_append (s : Session K) (acts acts' : List (Act Handle K)) :
    s.run (acts ++ acts') = (s.run acts).run acts' :=
  List.foldl_append

/-- Independent operations commute. Whatever a program with one detector has done so far, two
acts whose operations name different threads and are not about one lock or one location hand
back the same in either order, and either order ends in the same session: in the same detector,
down to the clocks of its threads and locks, its entries with their records and its total, and
with the same values in the cells. So two programs end in the same session if the one comes
from the other by changing the order of such acts. -/
theorem independent_acts_commute {config : Config} {cells : List (Address × Int)}
    (h : create K [(rule, config)] cells = .ok s) (hplain : ∀ a ∈ acts, a.meddles = false) :
    (∀ a b, a.Independent b →
      ((s.run acts).next b).outcome? a = (s.run acts).outcome? a ∧
        ((s.run acts).next a).outcome? b = (s.run acts).outcome? b ∧
        ((s.run acts).next a).next b = ((s.run acts).next b).next a) ∧
    ∀ acts', Relation.ReflTransGen Swap acts acts' → s.run acts' = s.run acts := by
  constructor
  · intro a b hab
    obtain ⟨d, hw, hd⟩ := exists_watches_run h hplain
    exact ⟨outcome?_next hw hd hab, outcome?_next hw hd hab.symm, next_comm hw hd hab⟩
  · intro acts' hswaps
    have hrun : (∀ a ∈ acts', a.meddles = false) ∧ s.run acts' = s.run acts := by
      induction hswaps with
      | refl => exact ⟨hplain, rfl⟩
      | tail _ hswap ih =>
        obtain ⟨hplain', hrun⟩ := ih
        cases hswap with
        | @mk before a b after hab =>
          have hperm : (before ++ b :: a :: after).Perm (before ++ a :: b :: after) :=
            (List.Perm.swap a b after).append_left before
          refine ⟨fun c hc => hplain' c (hperm.mem_iff.mp hc), ?_⟩
          obtain ⟨d, hw, hd⟩ := exists_watches_run h
            fun c hc => hplain' c (List.mem_append_left _ hc)
          rw [← hrun, run_append, run_append]
          exact congrArg (fun s => s.run after) (next_comm hw hd hab).symm
    exact hrun.2

/-- Two threads come to be. Then one of them writes to the cell and the other one releases a
lock. -/
def crossed : List (Act Handle 2) :=
  [.call 0 .start none, .call 0 .start none, .store 0 ⟨0, 1⟩ 7 1, .call 0 (.release 9 ⟨0, 2⟩) none]

theorem crossed_either_way :
    ((counting .precise).run (crossed.take 2 ++ [crossed[3], crossed[2]])) =
        (counting .precise).run crossed ∧
      (((counting .precise).run (crossed.take 2)).next crossed[3]).outcome? crossed[2] =
        some (.ok .unit) := by
  have hplain : ∀ a ∈ crossed, a.meddles = false := by decide
  have hplain' : ∀ a ∈ crossed.take 2, a.meddles = false := by decide
  have hapart : crossed[2].Independent crossed[3] := by decide
  obtain ⟨hfirst, -, -⟩ :=
    (independent_acts_commute (create_counting .precise) hplain').1 _ _ hapart
  exact ⟨(independent_acts_commute (create_counting .precise) hplain).2 _
    (.single (.mk (crossed.take 2) [] hapart)), hfirst.trans rfl⟩

end Session

end RaceWatch
