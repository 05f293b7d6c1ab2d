import RaceWatch.Script
import RaceWatch.Proofs.Program

/-!
What a script comes to, one thing after the other. The body of an access is done between the
check of the access and all that follows it. So the things that a script does form one
sequence, however deep its accesses are nested and whether or not their bodies panic. Each of
them changes at most one of the detectors of the session, as the operation says that this
detector is told of.
-/

namespace RaceWatch

/-- Where a function is applied to each of some values in turn and none of them fails, each
result is that of its own value. -/
theorem map_getElem?_of_mapM {α β ε : Type} {f : α → Except ε β} {xs : List α} {ys : List β}
    (h : xs.mapM f = .ok ys) (i : Nat) : xs[i]?.map f = ys[i]?.map .ok := by
  induction xs generalizing ys i with
  | nil =>
    rw [List.mapM_nil] at h
    obtain rfl := Except.ok.inj h
    rfl
  | cons x rest ih =>
    rw [List.mapM_cons] at h
    obtain ⟨y, hy, h⟩ := bind_eq_ok.mp h
    obtain ⟨ys', hys, h⟩ := bind_eq_ok.mp h
    obtain rfl := Except.ok.inj h
    cases i with
    | zero => simp [hy]
    | succ i => exact ih hys i

namespace Trace

variable {K : Nat}

/-- All things that were done, oldest first, the bodies of accesses in line. -/
def outcomes : Trace K → List (Outcome K)
  | .finish => []
  | .act outcome? rest | .refused outcome? rest => outcome?.toList ++ rest.outcomes
  | .access check body _ _ rest => check :: (body.outcomes ++ rest.outcomes)

end Trace

/-- All things that a script does in a session, oldest first. -/
def Script.log {K : Nat} (script : Script K) (s : Session K) : List (Outcome K) :=
  (script.run s).2.outcomes

namespace Act

variable {ρ : Type} {K : Nat}

/-- The operation that an act tells a detector of. -/
def tells? (i : Nat) : Act ρ K → Option (Op ρ)
  | .call j op _ => if j = i then some op else none
  | .load j t cell => if j = i then some (.access t ⟨cell, .read⟩) else none
  | .store j t cell _ => if j = i then some (.access t ⟨cell, .write⟩) else none
  | .recall .. | .observe .. | .look => none

end Act

/-- What an operation hands back, where nothing is said of a value that the program has read
from memory. -/
def Value.unread : Value → Value
  | .number _ => .unit
  | v => v

/-- Whether an operation hands back a flag, which tells of what was kept before. -/
def Op.flags {ρ : Type} : Op ρ → Bool
  | .forgetLock _ | .init _ | .forget _ => true
  | .start | .fork .. | .join .. | .exit _ | .acquire .. | .release .. | .access .. => false

/-- An operation that succeeds hands back a new handle, a flag or nothing. -/
theorem Detector.result_cases {rule : Rule} {K : Nat} (d : Detector rule K) (op : Op Handle) :
    (op = .start ∧ (d.step op).result = d.start.result.map .handle) ∨
      (op.flags = true ∧ ∃ b, (d.step op).result = .ok (.flag b)) ∨
      ∃ x : Except (Failure Error) Unit, (d.step op).result = x.map fun () => .unit := by
  cases op with
  | start => exact .inl ⟨rfl, rfl⟩
  | forgetLock | init | forget => exact .inr (.inl ⟨rfl, _, rfl⟩)
  | fork | join | exit | acquire | release | access => exact .inr (.inr ⟨_, rfl⟩)

/-- A detector hands back nothing from memory. -/
theorem Detector.result_step_unread {rule : Rule} {K : Nat} (d : Detector rule K)
    (op : Op Handle) : (d.step op).result.map Value.unread = (d.step op).result := by
  obtain ⟨-, hx⟩ | ⟨-, b, hb⟩ | ⟨x, hx⟩ := d.result_cases op
  · rw [hx]
    cases d.start.result <;> rfl
  · rw [hb]
    rfl
  · rw [hx]
    cases x <;> rfl

/-- No other operation hands out a handle. -/
theorem Detector.eq_start_of_result {rule : Rule} {K : Nat} {d : Detector rule K}
    {op : Op Handle} {h : Handle} (hr : (d.step op).result = .ok (.handle h)) : op = .start := by
  obtain ⟨hop, -⟩ | ⟨-, b, hb⟩ | ⟨x, hx⟩ := d.result_cases op
  · exact hop
  · simp [hb] at hr
  · cases x <;> simp [hx, Except.map] at hr

namespace Session

variable {K : Nat} {s s' s'' : Session K} {log log' : List (Outcome K)} {i n : Nat}
  {a : Act Handle K} {r : Reply (Session K) Value} {op : Op Handle} {rule : Rule}

/-! ### The things a script does -/

/-- Some things are done one after the other in a session and lead to another one. -/
inductive Does : Session K → List (Outcome K) → Session K → Prop
  | nil {s : Session K} : Does s [] s
  | cons {s s' : Session K} {o : Outcome K} {log : List (Outcome K)}
      (act?_eq : s.act? o.act = some ⟨o.after, o.result, o.notes⟩) (rest : Does o.after log s') :
      Does s (o :: log) s'

/-- The session after the first of some things. -/
def upTo (s : Session K) (log : List (Outcome K)) (n : Nat) : Session K :=
  (log.take n).foldl (fun _ o => o.after) s

theorem Does.append (h : s.Does log s') (h' : s'.Does log' s'') : s.Does (log ++ log') s'' := by
  induction h with
  | nil => exact h'
  | cons hact _ ih => exact .cons hact (ih h')

theorem Does.take (h : s.Does log s') (n : Nat) : s.Does (log.take n) (s.upTo log n) := by
  induction h generalizing n with
  | nil =>
    rw [upTo, List.take_nil]
    exact .nil
  | cons hact _ ih =>
    cases n with
    | zero => exact .nil
    | succ n => exact .cons hact (ih n)

theorem Does.eq_upTo (h : s.Does log s') : s' = s.upTo log log.length := by
  rw [upTo, List.take_length]
  induction h with
  | nil => rfl
  | cons _ _ ih => exact ih

/-- Each thing was done in the session that the things before it led to. -/
theorem Does.act?_upTo (h : s.Does log s') {o : Outcome K} (hn : log[n]? = some o) :
    (s.upTo log n).act? o.act = some ⟨o.after, o.result, o.notes⟩ := by
  induction h generalizing n with
  | nil => simp at hn
  | cons hact _ ih =>
    cases n with
    | zero =>
      obtain rfl := Option.some.inj hn
      exact hact
    | succ n => exact ih hn

/-- What each act keeps that does not meddle is kept by all that is done. -/
theorem Does.keeps {P : Session K → Prop} (h : s.Does log s')
    (hplain : ∀ o ∈ log, o.act.meddles = false)
    (hact : ∀ {s a r}, s.act? a = some r → a.meddles = false → P s → P r.state) (hs : P s) :
    P s' := by
  induction h with
  | nil => exact hs
  | cons ho _ ih =>
    exact ih (fun o h => hplain o (List.mem_cons_of_mem _ h))
      (hact ho (hplain _ List.mem_cons_self) hs)

theorem does_perform? (s : Session K) (act : Act ThreadRef K) :
    s.Does (s.perform? act).toList (s.following (s.perform? act)) := by
  cases ho : s.perform? act with
  | none => exact .nil
  | some o =>
    obtain ⟨act', -, ho⟩ := Option.bind_eq_some_iff.mp ho
    obtain ⟨r, hr, ho⟩ := Option.bind_eq_some_iff.mp ho
    obtain rfl := Option.some.inj ho
    exact .cons hr .nil

/-- A script does the things that its log tells of, in their order. -/
theorem does_log (script : Script K) (s : Session K) :
    s.Does (script.log s) (script.run s).1 := by
  rw [Script.log]
  induction script generalizing s with
  | finish => exact .nil
  | act act rest ih => exact (s.does_perform? act).append (ih _)
  | access d t a body panics rest ihbody ihrest =>
    have hcheck := s.does_perform? (.call d (.access t a) none)
    rw [Script.run]
    cases hf : (s.perform? (.call d (.access t a) none)).filter (·.succeeded) with
    | none => exact hcheck.append (ihrest _)
    | some check =>
      -- The body runs only if the check succeeds.
      obtain ⟨ho, -⟩ := Option.filter_eq_some_iff.mp hf
      rw [ho] at hcheck
      exact hcheck.append ((ihbody _).append (ihrest _))

/-- A script ends in the session after the last thing that it did. -/
theorem run_eq_upTo (script : Script K) (s : Session K) :
    (script.run s).1 = s.upTo (script.log s) (script.log s).length :=
  (s.does_log script).eq_upTo

/-! ### What becomes of the detectors -/

theorem call?_eq_some : s.call? i op = some r ↔ ∃ (rule : Rule) (d : Detector rule K),
    s.detector? i = some ⟨rule, d⟩ ∧ r = (d.step op).mapState fun d =>
      { s with detectors := s.detectors.set i ⟨rule, d⟩ } := by
  rw [call?, Option.map_eq_some_iff]
  constructor
  · rintro ⟨⟨rule, d⟩, hd, rfl⟩
    exact ⟨rule, d, hd, rfl⟩
  · rintro ⟨rule, d, hd, rfl⟩
    exact ⟨⟨rule, d⟩, hd, rfl⟩

/-- An act that tells a detector of an operation makes it take the step that it takes alone,
and it hands back the same but for a value that is read. If the step fails, nothing else
happens. -/
structure Told (s : Session K) (i : Nat) (op : Op Handle) (d : Detector rule K)
    (r : Reply (Session K) Value) : Prop where
  detector?_eq : s.detector? i = some ⟨rule, d⟩
  detectors_eq : r.state.detectors = s.detectors.set i ⟨rule, (d.step op).state⟩
  result_eq : r.result.map Value.unread = (d.step op).result
  of_error : ∀ f, (d.step op).result = .error f → r.result = .error f ∧
    r.state = { s with detectors := s.detectors.set i ⟨rule, (d.step op).state⟩ }

theorem Told.detector?_after {d : Detector rule K} (h : s.Told i op d r) :
    r.state.detector? i = some ⟨rule, (d.step op).state⟩ := by
  have hlt : i < s.detectors.length := (List.getElem?_eq_some_iff.mp h.detector?_eq).1
  rw [detector?, h.detectors_eq, List.getElem?_set_self hlt]

theorem exists_told (h : s.act? a = some r) (hop : a.tells? i = some op) :
    ∃ (rule : Rule) (d : Detector rule K), s.Told i op d r := by
  cases a with
  | call j op' name? =>
    rw [Act.tells?, Option.ite_none_right_eq_some, Option.some.injEq] at hop
    obtain ⟨rfl, rfl⟩ := hop
    obtain ⟨r₀, hcall, h⟩ := Option.bind_eq_some_iff.mp h
    obtain ⟨rule, d, hd, rfl⟩ := call?_eq_some.mp hcall
    have hr := Option.some.inj h
    refine ⟨rule, d, ?_⟩
    rw [Reply.result_mapState] at hr
    have hunread := d.result_step_unread op'
    cases hstep : (d.step op').result with
    | error f =>
      rw [hstep] at hr
      subst hr
      exact ⟨hd, rfl, hunread, fun f' hf' => ⟨hf', rfl⟩⟩
    | ok v =>
      rw [hstep] at hr
      have herror (f) (hf : (d.step op').result = .error f) : False := by simp [hstep] at hf
      cases v with
      | handle t =>
        subst hr
        refine ⟨hd, ?_, hunread, fun f hf => (herror f hf).elim⟩
        cases name? <;> rfl
      | unit | flag | number =>
        subst hr
        exact ⟨hd, rfl, hunread, fun f hf => (herror f hf).elim⟩
  | load j t cell =>
    rw [Act.tells?, Option.ite_none_right_eq_some, Option.some.injEq] at hop
    obtain ⟨rfl, rfl⟩ := hop
    obtain ⟨value, -, h⟩ := Option.bind_eq_some_iff.mp h
    obtain ⟨r₀, hcall, h⟩ := Option.bind_eq_some_iff.mp h
    obtain ⟨rule, d, hd, rfl⟩ := call?_eq_some.mp hcall
    obtain rfl := Option.some.inj h
    refine ⟨rule, d, hd, rfl, ?_, fun f hf => ⟨?_, rfl⟩⟩
    · simp only [Reply.result_mapResult, Reply.result_mapState, Detector.step]
      cases (d.access t ⟨cell, .read⟩).result <;> rfl
    · rw [Reply.result_mapResult, Reply.result_mapState, hf]
      rfl
  | store j t cell value =>
    rw [Act.tells?, Option.ite_none_right_eq_some, Option.some.injEq] at hop
    obtain ⟨rfl, rfl⟩ := hop
    obtain ⟨-, -, h⟩ := Option.bind_eq_some_iff.mp h
    obtain ⟨r₀, hcall, h⟩ := Option.bind_eq_some_iff.mp h
    obtain ⟨rule, d, hd, rfl⟩ := call?_eq_some.mp hcall
    have hr := Option.some.inj h
    rw [Reply.result_mapState] at hr
    have hunread := d.result_step_unread (.access t ⟨cell, .write⟩)
    refine ⟨rule, d, ?_⟩
    cases hstep : (d.step (.access t ⟨cell, .write⟩)).result with
    | error f =>
      rw [hstep] at hr
      subst hr
      exact ⟨hd, rfl, hunread, fun f' hf' => ⟨hf', rfl⟩⟩
    | ok v =>
      rw [hstep] at hr
      subst hr
      exact ⟨hd, rfl, hunread, fun f hf => by simp [hstep] at hf⟩
  | «recall» | observe | look => simp [Act.tells?] at hop

/-- A detector that an act does not tell of anything stays as it is, unless the act meddles. -/
theorem detector?_of_not_told (h : s.act? a = some r) (hnone : a.tells? i = none)
    (hplain : a.meddles = false) : r.state.detector? i = s.detector? i := by
  by_cases hother : ∃ j op, j ≠ i ∧ a.tells? j = some op
  · obtain ⟨j, op, hj, hop⟩ := hother
    obtain ⟨rule, d, htold⟩ := exists_told h hop
    rw [detector?, htold.detectors_eq, List.getElem?_set_ne hj]
    rfl
  · cases a with
    | call j | load j | store j =>
      by_cases hj : j = i
      · simp [Act.tells?, hj] at hnone
      · exact absurd ⟨j, _, hj, if_pos rfl⟩ hother
    | «recall» j thread name? =>
      obtain ⟨⟨rule, d⟩, -, h⟩ := Option.bind_eq_some_iff.mp h
      have hr := Option.some.inj h
      cases hh : d.registry.handle? thread with
      | none =>
        rw [hh] at hr
        subst hr
        rfl
      | some t =>
        rw [hh] at hr
        subst hr
        cases name? <;> rfl
    | observe => simp [Act.meddles] at hplain
    | look =>
      obtain rfl := Option.some.inj h
      rfl

/-- The detectors of a new session are new, and the tag of each is its position. -/
theorem exists_detector?_of_create {detectors : List (Rule × Config)}
    {cells : List (Address × Int)} (h : create K detectors cells = .ok s) {config : Config}
    (hi : detectors[i]? = some (rule, config)) :
    ∃ d, Detector.create rule K config i = .ok d ∧ s.detector? i = some ⟨rule, d⟩ := by
  obtain ⟨all, hall, h⟩ := bind_eq_ok.mp h
  obtain rfl := Except.ok.inj h
  have hget := map_getElem?_of_mapM hall i
  rw [List.getElem?_zipIdx, hi, Option.map_some, Option.map_some, eq_comm,
    Option.map_eq_some_iff] at hget
  obtain ⟨any, hany, hcreate⟩ := hget
  obtain ⟨d, hd, hany'⟩ := bind_eq_ok.mp hcreate.symm
  obtain rfl := Except.ok.inj hany'
  exact ⟨d, by simpa using hd, hany⟩

end Session

end RaceWatch
