import RaceWatch.Session
import RaceWatch.Proofs.Bookkeeping

/-!
Programs that run under one detector. A session with one detector does to it what its acts
tell it and nothing else, so what is known of the runs of a detector is known of its
session. Loads and stores go through exactly if their accesses do, and only a store that
goes through changes a cell.
-/

namespace RaceWatch

namespace Act

variable {ρ : Type} {K : Nat}

/-- The operation that a detector is told of. -/
def op? : Act ρ K → Option (Op ρ)
  | .call _ op _ => some op
  | .load _ t cell => some (.access t ⟨cell, .read⟩)
  | .store _ t cell _ => some (.access t ⟨cell, .write⟩)
  | .recall .. | .observe .. | .look => none

/-- Whether an act changes what a thread knows without any operation. -/
def meddles : Act ρ K → Bool
  | .observe .. => true
  | _ => false

/-- The value that is written to a cell. -/
def stored? (x : Address) : Act ρ K → Option Int
  | .store _ _ cell value => if cell = x then some value else none
  | _ => none

theorem stored?_eq_some {x : Address} {a : Act ρ K} {value : Int} :
    a.stored? x = some value ↔ ∃ i t, a = .store i t x value := by
  cases a <;> simp [stored?]

/-- The value that an act with a result has left in a cell. -/
def written? (x : Address) (a : Act ρ K) : Except (Failure Error) Value → Option Int
  | .ok _ => a.stored? x
  | .error _ => none

theorem written?_eq_none {x : Address} {a : Act ρ K} (h : a.stored? x = none)
    (result : Except (Failure Error) Value) : a.written? x result = none := by
  cases result with
  | ok => exact h
  | error => rfl

/-- The operations among some acts. -/
def ops (acts : List (Act ρ K)) : List (Op ρ) := acts.filterMap op?

theorem ops_append (acts acts' : List (Act ρ K)) : ops (acts ++ acts') = ops acts ++ ops acts' :=
  List.filterMap_append

theorem ops_take_succ {acts : List (Act ρ K)} {n : Nat} {a : Act ρ K} (h : acts[n]? = some a) :
    ops (acts.take (n + 1)) = ops (acts.take n) ++ a.op?.toList := by
  rw [List.take_add_one, h, Option.toList_some, ops_append]
  cases hop : a.op? <;> simp [ops, hop]

end Act

namespace Session

variable {rule : Rule} {K : Nat} {s : Session K} {d : Detector rule K} {a : Act Handle K}
  {acts : List (Act Handle K)} {n : Nat} {op : Op Handle} {result : Except (Failure Error) Value}

/-- What an act hands back, if it names what there is. -/
def outcome? (s : Session K) (a : Act Handle K) : Option (Except (Failure Error) Value) :=
  (s.act? a).map (·.result)

/-- The session after an act. One that names what there is not changes nothing. -/
def next (s : Session K) (a : Act Handle K) : Session K := ((s.act? a).map (·.state)).getD s

/-- The session after some acts. -/
def run (s : Session K) (acts : List (Act Handle K)) : Session K := acts.foldl next s

/-- The session after the first of some acts. -/
def after (s : Session K) (acts : List (Act Handle K)) (n : Nat) : Session K :=
  s.run (acts.take n)

@[simp] theorem run_nil (s : Session K) : s.run [] = s := rfl

theorem run_concat (s : Session K) (acts : List (Act Handle K)) (a : Act Handle K) :
    s.run (acts ++ [a]) = (s.run acts).next a := by
  simp [run]

@[simp] theorem after_zero (s : Session K) (acts : List (Act Handle K)) : s.after acts 0 = s := rfl

theorem after_length (s : Session K) (acts : List (Act Handle K)) :
    s.after acts acts.length = s.run acts := by
  rw [after, List.take_length]

theorem after_succ (s : Session K) (h : acts[n]? = some a) :
    s.after acts (n + 1) = (s.after acts n).next a := by
  rw [after, List.take_add_one, h, Option.toList_some, run_concat, after]

theorem after_succ_of_none (s : Session K) (h : acts[n]? = none) :
    s.after acts (n + 1) = s.after acts n := by
  simp [after, List.take_add_one, h]

/-- Whether a session has one detector and no other. -/
def Watches (s : Session K) (d : Detector rule K) : Prop := s.detectors = [⟨rule, d⟩]

theorem create_eq_ok {config : Config} {cells : List (Address × Int)}
    (h : create K [(rule, config)] cells = .ok s) :
    ∃ d, Detector.create rule K config 0 = .ok d ∧ s.Watches d ∧ s.cells = .ofList cells := by
  obtain ⟨detectors, hdetectors, h⟩ := bind_eq_ok.mp h
  obtain rfl := Except.ok.inj h
  rw [List.zipIdx_cons, List.zipIdx_nil, List.mapM_cons, List.mapM_nil] at hdetectors
  obtain ⟨any, hany, hdetectors⟩ := bind_eq_ok.mp hdetectors
  obtain ⟨d, hd, hany⟩ := bind_eq_ok.mp hany
  obtain rfl := Except.ok.inj hany
  exact ⟨d, hd, (Except.ok.inj hdetectors).symm, rfl⟩

/-! ### One act -/

theorem call?_eq (hw : s.Watches d) (op : Op Handle) :
    s.call? 0 op = some ((d.step op).mapState fun d => { s with detectors := [⟨rule, d⟩] }) := by
  have hdetectors : s.detectors = [⟨rule, d⟩] := hw
  simp [call?, detector?, hdetectors]

theorem call?_eq_none (hw : s.Watches d) {i : Nat} (hi : i ≠ 0) (op : Op Handle) :
    s.call? i op = none := by
  have hdetectors : s.detectors = [⟨rule, d⟩] := hw
  have hout : [(⟨rule, d⟩ : AnyDetector K)][i]? = none := by
    rw [List.getElem?_eq_none_iff]
    exact Nat.one_le_iff_ne_zero.mpr hi
  simp [call?, detector?, hdetectors, hout]

/-- What an act with an operation comes to: the detector makes the step that it makes
alone, and the act fails exactly if the step does. -/
structure Tells (s : Session K) (d : Detector rule K) (a : Act Handle K) (op : Op Handle)
    (result : Except (Failure Error) Value) : Prop where
  watches : (s.next a).Watches (d.step op).state
  error_iff : ∀ f, result = .error f ↔ (d.step op).result = .error f
  cells_eq : ∀ x, (s.next a).cells[x]? = (a.written? x result).or s.cells[x]?

theorem tells_of_reply {r : Reply (Session K) Value} (hact : s.act? a = some r)
    (hr : s.outcome? a = some result) (hw : r.state.Watches (d.step op).state)
    (herror : ∀ f, r.result = .error f ↔ (d.step op).result = .error f)
    (hcells : ∀ x, r.state.cells[x]? = (a.written? x r.result).or s.cells[x]?) :
    s.Tells d a op result := by
  rw [outcome?, hact, Option.map_some, Option.some.injEq] at hr
  subst hr
  have hnext : s.next a = r.state := by rw [next, hact]; rfl
  exact ⟨hnext ▸ hw, herror, fun x => by rw [hnext]; exact hcells x⟩

theorem tells_call (hw : s.Watches d) {i : Nat} {name? : Option String}
    (hr : s.outcome? (.call i op name?) = some result) :
    s.Tells d (.call i op name?) op result := by
  by_cases hi : i = 0
  · subst hi
    have hcall := call?_eq hw op
    -- A handle may be given a name, which concerns neither the detector nor a cell.
    by_cases hhandle : ∃ h, (d.step op).result = .ok (.handle h)
    · obtain ⟨h, hstep⟩ := hhandle
      have hact : s.act? (.call 0 op name?) = some (((d.step op).mapState
          fun d => { s with detectors := [⟨rule, d⟩] }).mapState (·.bind name? h)) := by
        simp [act?, hcall, hstep]
      refine tells_of_reply hact hr ?_ (fun f => Iff.rfl) fun x => ?_
      · cases name? <;> rfl
      · rw [Act.written?_eq_none rfl]
        cases name? <;> rfl
    · have hact : s.act? (.call 0 op name?) =
          some ((d.step op).mapState fun d => { s with detectors := [⟨rule, d⟩] }) := by
        simp only [act?, hcall, Option.bind_eq_bind, Option.bind_some, Reply.result_mapState]
        split
        · next h hstep => exact absurd ⟨h, hstep⟩ hhandle
        · rfl
      refine tells_of_reply hact hr rfl (fun f => Iff.rfl) fun x => ?_
      rw [Act.written?_eq_none rfl]
      rfl
  · simp [outcome?, act?, call?_eq_none hw hi] at hr

theorem tells_load (hw : s.Watches d) {i : Nat} {t : Handle} {cell : Address}
    (hr : s.outcome? (.load i t cell) = some result) :
    s.Tells d (.load i t cell) (.access t ⟨cell, .read⟩) result ∧
      ∀ v, result = .ok v → ∃ value, s.cells[cell]? = some value ∧ v = .number value := by
  cases hcell : s.cells[cell]? with
  | none => simp [outcome?, act?, hcell] at hr
  | some value =>
    by_cases hi : i = 0
    · subst hi
      have hact : s.act? (.load 0 t cell) =
          some (((d.step (.access t ⟨cell, .read⟩)).mapState
            fun d => { s with detectors := [⟨rule, d⟩] }).mapResult fun _ => .number value) := by
        simp [act?, hcell, call?_eq hw]
      constructor
      · refine tells_of_reply hact hr rfl (fun f => ?_) fun x => ?_
        · rw [Reply.result_mapResult, Reply.result_mapState]
          cases (d.step (.access t ⟨cell, .read⟩)).result <;> simp [Except.map]
        · rw [Act.written?_eq_none rfl]
          rfl
      · rintro v rfl
        rw [outcome?, hact, Option.map_some, Option.some.injEq, Reply.result_mapResult,
          Reply.result_mapState] at hr
        cases hstep : (d.step (.access t ⟨cell, .read⟩)).result with
        | error f => simp [hstep, Except.map] at hr
        | ok u =>
          rw [hstep] at hr
          exact ⟨value, rfl, (Except.ok.inj hr).symm⟩
    · simp [outcome?, act?, hcell, call?_eq_none hw hi] at hr

theorem tells_store (hw : s.Watches d) {i : Nat} {t : Handle} {cell : Address} {value : Int}
    (hr : s.outcome? (.store i t cell value) = some result) :
    s.Tells d (.store i t cell value) (.access t ⟨cell, .write⟩) result := by
  by_cases hcell : s.cells.contains cell
  · by_cases hi : i = 0
    · subst hi
      have hcall := call?_eq hw (.access t ⟨cell, .write⟩)
      cases hstep : (d.step (.access t ⟨cell, .write⟩)).result with
      | error f =>
        have hact : s.act? (.store 0 t cell value) =
            some ((d.step (.access t ⟨cell, .write⟩)).mapState
              fun d => { s with detectors := [⟨rule, d⟩] }) := by
          simp [act?, hcell, hcall, hstep]
        refine tells_of_reply hact hr rfl (fun f => Iff.rfl) fun x => ?_
        rw [Reply.result_mapState, hstep]
        rfl
      | ok v =>
        have hact : s.act? (.store 0 t cell value) =
            some (((d.step (.access t ⟨cell, .write⟩)).mapState
              fun d => { s with detectors := [⟨rule, d⟩] }).mapState
                fun s => { s with cells := s.cells.insert cell value }) := by
          simp [act?, hcell, hcall, hstep]
        refine tells_of_reply hact hr rfl (fun f => Iff.rfl) fun x => ?_
        rw [Reply.result_mapState, Reply.result_mapState, hstep]
        by_cases hx : cell = x
        · subst hx
          simp [Act.written?, Act.stored?]
        · simp [Act.written?, Act.stored?, hx, Std.ExtTreeMap.getElem?_insert]
    · simp [outcome?, act?, hcell, call?_eq_none hw hi] at hr
  · simp [outcome?, act?, hcell] at hr

/-- An act with an operation tells the detector of it. -/
theorem tells_of_op? (hw : s.Watches d) (hop : a.op? = some op)
    (hr : s.outcome? a = some result) : s.Tells d a op result := by
  cases a with
  | call i o name? =>
    obtain rfl := Option.some.inj hop
    exact tells_call hw hr
  | load i t cell =>
    obtain rfl := Option.some.inj hop
    exact (tells_load hw hr).1
  | store i t cell value =>
    obtain rfl := Option.some.inj hop
    exact tells_store hw hr
  | «recall» | observe | look => simp [Act.op?] at hop

/-- An act without an operation leaves the detector and the cells as they are, unless it
meddles with what a thread knows. -/
theorem next_of_op?_eq_none (hw : s.Watches d) (hop : a.op? = none) (ha : a.meddles = false) :
    (s.next a).Watches d ∧ (s.next a).cells = s.cells := by
  cases a with
  | call | load | store => simp [Act.op?] at hop
  | observe => simp [Act.meddles] at ha
  | look => exact ⟨hw, rfl⟩
  | «recall» i thread name? =>
    simp only [next, act?]
    cases hd : s.detector? i with
    | none => exact ⟨hw, rfl⟩
    | some any =>
      obtain ⟨rule', d'⟩ := any
      cases hh : d'.registry.handle? thread with
      | none => simpa [hh] using hw
      | some h =>
        cases name? with
        | none => simpa [hh, Session.bind] using hw
        | some n => simpa [hh, Session.bind, Watches] using hw

/-! An act has an outcome if its detector and its cell exist. -/

theorem outcome?_call (hw : s.Watches d) (op : Op Handle) (name? : Option String) :
    s.outcome? (.call 0 op name?) = some (d.step op).result := by
  simp only [outcome?, act?, call?_eq hw, Option.bind_eq_bind, Option.bind_some,
    Reply.result_mapState]
  split <;> simp_all

theorem exists_outcome_load (hw : s.Watches d) (t : Handle) {x : Address} {c : Int}
    (hx : s.cells[x]? = some c) : ∃ result, s.outcome? (.load 0 t x) = some result := by
  simp [outcome?, act?, call?_eq hw, hx]

theorem exists_outcome_store (hw : s.Watches d) (t : Handle) {x : Address} {c : Int}
    (hx : s.cells[x]? = some c) (value : Int) :
    ∃ result, s.outcome? (.store 0 t x value) = some result := by
  have hcontains : s.cells.contains x = true := by
    rw [Std.ExtTreeMap.contains_eq_isSome_getElem?, hx]
    rfl
  simp [outcome?, act?, call?_eq hw, hcontains]

theorem next_of_outcome?_eq_none (h : s.outcome? a = none) : s.next a = s := by
  rw [outcome?, Option.map_eq_none_iff] at h
  rw [next, h]
  rfl

/-- What an act with an operation hands back depends on what the detector hands back and on the
cell that is accessed. -/
theorem outcome?_congr {s' : Session K} {d' : Detector rule K} (hw : s.Watches d)
    (hw' : s'.Watches d') (hop : a.op? = some op)
    (hresult : (d'.step op).result = (d.step op).result)
    (hcells : ∀ t b, op = .access t b → s'.cells[b.address]? = s.cells[b.address]?) :
    s'.outcome? a = s.outcome? a := by
  cases a with
  | call i op' name? =>
    obtain rfl := Option.some.inj hop
    by_cases hi : i = 0
    · subst hi
      rw [outcome?_call hw, outcome?_call hw', hresult]
    · simp [outcome?, act?, call?_eq_none hw hi, call?_eq_none hw' hi]
  | load i t cell =>
    obtain rfl := Option.some.inj hop
    have hcell : s'.cells[cell]? = s.cells[cell]? := hcells t ⟨cell, .read⟩ rfl
    by_cases hi : i = 0
    · subst hi
      simp only [outcome?, act?, call?_eq hw, call?_eq hw', hcell]
      cases s.cells[cell]? <;> simp [hresult]
    · simp [outcome?, act?, call?_eq_none hw hi, call?_eq_none hw' hi]
  | store i t cell value =>
    obtain rfl := Option.some.inj hop
    have hcell : s'.cells.contains cell = s.cells.contains cell := by
      rw [Std.ExtTreeMap.contains_eq_isSome_getElem?, Std.ExtTreeMap.contains_eq_isSome_getElem?,
        hcells t ⟨cell, .write⟩ rfl]
    by_cases hi : i = 0
    · subst hi
      simp only [outcome?, act?, call?_eq hw, call?_eq hw', hcell]
      cases s.cells.contains cell with
      | false => rfl
      | true =>
        simp only [guard_true, Option.bind_eq_bind, Option.bind_some, Reply.result_mapState,
          hresult]
        cases hstep : (d.step (.access t ⟨cell, .write⟩)).result <;> simp [hstep, hresult]
    · simp [outcome?, act?, call?_eq_none hw hi, call?_eq_none hw' hi]
  | «recall» | observe | look => simp [Act.op?] at hop

/-! ### Runs -/

/-- What an act of a run hands back. -/
def outcomeAt? (s : Session K) (acts : List (Act Handle K)) (n : Nat) :
    Option (Except (Failure Error) Value) :=
  acts[n]?.bind (s.after acts n).outcome?

/-- Whether an act went through. -/
def wentThrough : Option (Except (Failure Error) Value) → Bool
  | some (.ok _) => true
  | _ => false

theorem wentThrough_iff {outcome? : Option (Except (Failure Error) Value)} :
    wentThrough outcome? = true ↔ ∃ v, outcome? = some (.ok v) := by
  rcases outcome? with - | (f | v) <;> simp [wentThrough]

/-- Whether all acts of a run go through. -/
def Succeeds (s : Session K) (acts : List (Act Handle K)) : Prop :=
  ∀ n < acts.length, wentThrough (s.outcomeAt? acts n) = true

instance (s : Session K) (acts : List (Act Handle K)) : Decidable (s.Succeeds acts) :=
  inferInstanceAs (Decidable (∀ n < acts.length, _))

theorem outcomeAt?_eq (s : Session K) (h : acts[n]? = some a) :
    s.outcomeAt? acts n = (s.after acts n).outcome? a := by
  rw [outcomeAt?, h, Option.bind_some]

theorem outcomeAt?_append_left (s : Session K) {acts' : List (Act Handle K)}
    (h : n < acts.length) : s.outcomeAt? (acts ++ acts') n = s.outcomeAt? acts n := by
  rw [outcomeAt?, outcomeAt?, after, after, List.getElem?_append_left h,
    List.take_append_of_le_length h.le]

theorem outcomeAt?_concat_length (s : Session K) (acts : List (Act Handle K)) (a : Act Handle K) :
    s.outcomeAt? (acts ++ [a]) acts.length = (s.run acts).outcome? a := by
  rw [outcomeAt?, after, List.getElem?_concat_length, List.take_left, Option.bind_some]

theorem succeeds_concat : s.Succeeds (acts ++ [a]) ↔
    s.Succeeds acts ∧ wentThrough ((s.run acts).outcome? a) = true := by
  rw [← outcomeAt?_concat_length]
  constructor
  · intro h
    refine ⟨fun n hn => ?_, h _ (by simp)⟩
    rw [← s.outcomeAt?_append_left hn]
    exact h n (by simp; omega)
  · rintro ⟨h, ha⟩ n hn
    rw [List.length_append, List.length_singleton] at hn
    rcases Nat.lt_succ_iff_lt_or_eq.mp hn with hn | rfl
    · rw [s.outcomeAt?_append_left hn]
      exact h n hn
    · exact ha

/-- Whether no act of a run fails because a thread has used up its clock values. -/
def NoOverflow (s : Session K) (acts : List (Act Handle K)) : Prop :=
  ∀ n < acts.length, ∀ t c,
    s.outcomeAt? acts n ≠ some (.error (.error (.fatal (.clockOverflow t c))))

theorem Succeeds.noOverflow (h : s.Succeeds acts) : s.NoOverflow acts := by
  intro n hn t c hout
  have hwent := h n hn
  rw [hout] at hwent
  exact absurd hwent (by simp [wentThrough])

theorem NoOverflow.of_concat (h : s.NoOverflow (acts ++ [a])) :
    s.NoOverflow acts ∧ ∀ t c,
      (s.run acts).outcome? a ≠ some (.error (.error (.fatal (.clockOverflow t c)))) := by
  constructor
  · intro n hn
    rw [← s.outcomeAt?_append_left hn]
    exact h n (by simp; omega)
  · rw [← outcomeAt?_concat_length]
    exact h _ (by simp)

theorem Succeeds.exists_ok (h : s.Succeeds acts) (hn : acts[n]? = some a) :
    ∃ v, (s.after acts n).outcome? a = some (.ok v) := by
  rw [← s.outcomeAt?_eq hn]
  exact wentThrough_iff.mp (h n (List.getElem?_eq_some_iff.mp hn).1)

/-- The detector makes the step of the next act. -/
theorem watches_after_succ (hw : (s.after acts n).Watches (d.run (Act.ops (acts.take n))))
    (hn : acts[n]? = some a) (ha : a.meddles = false)
    (hr : (s.after acts n).outcome? a = some result) :
    (s.after acts (n + 1)).Watches (d.run (Act.ops (acts.take (n + 1)))) := by
  rw [after_succ s hn, Act.ops_take_succ hn, Detector.run_append]
  cases hop : a.op? with
  | none => exact (next_of_op?_eq_none hw hop ha).1
  | some op => exact (tells_of_op? hw hop hr).watches

section Succeeds

variable (h : s.Succeeds acts) (hw : s.Watches d) (hplain : ∀ a ∈ acts, a.meddles = false)
include h hw hplain

/-- The detector of a session goes through the operations that the acts tell it of. -/
theorem Succeeds.watches_after (n : Nat) :
    (s.after acts n).Watches (d.run (Act.ops (acts.take n))) := by
  induction n with
  | zero => exact hw
  | succ n ih =>
    cases hn : acts[n]? with
    | none =>
      rw [after_succ_of_none s hn, List.take_add_one, hn, Option.toList_none, List.append_nil]
      exact ih
    | some a =>
      obtain ⟨v, hv⟩ := h.exists_ok hn
      exact watches_after_succ ih hn (hplain a (List.mem_of_getElem? hn)) hv

/-- If all acts go through, all operations succeed. -/
theorem Succeeds.succeeded_of_mem (n : Nat) :
    ∀ e ∈ d.chronicle (Act.ops (acts.take n)), e.succeeded = true := by
  induction n with
  | zero => simp [Act.ops, Detector.chronicle]
  | succ n ih =>
    cases hn : acts[n]? with
    | none => rwa [List.take_add_one, hn, Option.toList_none, List.append_nil]
    | some a =>
      rw [Act.ops_take_succ hn, Detector.chronicle_append]
      intro e he
      rcases List.mem_append.mp he with he | he
      · exact ih e he
      obtain ⟨v, hv⟩ := h.exists_ok hn
      cases hop : a.op? with
      | none => simp [hop, Detector.chronicle] at he
      | some op =>
        rw [hop, Option.toList_some, Detector.chronicle, Detector.chronicle,
          List.mem_singleton] at he
        subst he
        have herror := (tells_of_op? (h.watches_after hw hplain n) hop hv).error_iff
        cases hr : ((d.run (Act.ops (acts.take n))).step op).result with
        | ok => rfl
        | error f => exact absurd ((herror f).mpr hr) (by simp)

/-- A cell holds the value of the last act that wrote to it. -/
theorem Succeeds.cell_after_succ (hn : acts[n]? = some a) (x : Address) :
    (s.after acts (n + 1)).cells[x]? = (a.stored? x).or (s.after acts n).cells[x]? := by
  rw [after_succ s hn]
  obtain ⟨v, hv⟩ := h.exists_ok hn
  cases hop : a.op? with
  | none =>
    have hcells := (next_of_op?_eq_none (h.watches_after hw hplain n) hop
      (hplain a (List.mem_of_getElem? hn))).2
    cases a <;> simp_all [Act.op?, Act.stored?]
  | some op => exact (tells_of_op? (h.watches_after hw hplain n) hop hv).cells_eq x

/-- A cell keeps its value as long as nothing is stored to it. -/
theorem Succeeds.cell_stays {x : Address} {m : Nat} (hmn : m ≤ n)
    (hkeep : ∀ k a, m ≤ k → k < n → acts[k]? = some a → a.stored? x = none) :
    (s.after acts n).cells[x]? = (s.after acts m).cells[x]? := by
  induction n, hmn using Nat.le_induction with
  | base => rfl
  | succ n hm ih =>
    rw [← ih fun k a hk hkn => hkeep k a hk (Nat.lt_succ_of_lt hkn)]
    cases hn : acts[n]? with
    | none => rw [after_succ_of_none s hn]
    | some a =>
      rw [h.cell_after_succ hw hplain hn, hkeep n a hm (Nat.lt_succ_self n) hn, Option.none_or]

/-- A load hands back the value of its cell. -/
theorem Succeeds.cell_of_load {i : Nat} {t : Handle} {x : Address} {v : Int}
    (hn : acts[n]? = some (.load i t x)) (hv : s.outcomeAt? acts n = some (.ok (.number v))) :
    (s.after acts n).cells[x]? = some v := by
  rw [s.outcomeAt?_eq hn] at hv
  obtain ⟨value, hcell, hvalue⟩ := (tells_load (h.watches_after hw hplain n) hv).2 _ rfl
  rw [hcell, Value.number.inj hvalue]

theorem Succeeds.watches_run : (s.run acts).Watches (d.run (Act.ops acts)) := by
  have hwatches := h.watches_after hw hplain acts.length
  rwa [after_length, List.take_length] at hwatches

theorem Succeeds.succeeded_of_mem_chronicle :
    ∀ e ∈ d.chronicle (Act.ops acts), e.succeeded = true := by
  have hmem := h.succeeded_of_mem hw hplain acts.length
  rwa [List.take_length] at hmem

end Succeeds

end Session

end RaceWatch
