import RaceWatch.Proofs.Transcript
import RaceWatch.Proofs.Verdict

/-!
A detector only looks on. A program that runs under detectors of other rules and other options
gets the same answers, reads the same values and leaves the same values behind, as long as no
thread runs out of clock values. This holds of the bodies of accesses as well, however deep they
are nested.
-/

namespace RaceWatch

/-- Whether an operation failed because a thread had used up all its clock values. -/
def Failure.isOverflow : Failure Error → Bool
  | .error (.fatal (.clockOverflow ..)) => true
  | _ => false

/-- Whether a result tells that a thread had used up all its clock values. -/
def overflows {α : Type} : Except (Failure Error) α → Bool
  | .error f => f.isOverflow
  | .ok _ => false

theorem overflows_map {α β : Type} (f : α → β) (result : Except (Failure Error) α) :
    overflows (result.map f) = overflows result := by
  cases result <;> rfl

theorem Event.overflowed_eq (e : Event) : e.overflowed = overflows e.result := by
  obtain ⟨op, (e | cause) | v⟩ := e
  · cases e with
    | fatal cause => cases cause <;> rfl
    | invalidCapacity | capacityExceeded | threadExited | foreignThread | selfSynchronization => rfl
  · rfl
  · rfl

/-! ### Two detectors -/

namespace Detector

variable {rule rule' : Rule} {K : Nat} {d : Detector rule K} {d' : Detector rule' K}

/-- Some operations have led to the detector since it was created. -/
def Reached (d : Detector rule K) : Prop :=
  ∃ config tag d₀ ops, create rule K config tag = .ok d₀ ∧ d = d₀.run ops

theorem Reached.sound (h : d.Reached) : d.Sound := by
  obtain ⟨config, tag, d₀, ops, h, rfl⟩ := h
  exact sound_run h ops

theorem Reached.placed (h : d.Reached) : d.Placed := by
  obtain ⟨config, tag, d₀, ops, h, rfl⟩ := h
  exact (placed_create h).run ops

theorem Reached.handled (h : d.Reached) (op : Op Handle) :
    d.Handled op (d.step op).state (d.step op).result := by
  obtain ⟨config, tag, d₀, ops, h, rfl⟩ := h
  exact handled_run h ops op

theorem Reached.step (h : d.Reached) (op : Op Handle) : (d.step op).state.Reached := by
  obtain ⟨config, tag, d₀, ops, h, rfl⟩ := h
  exact ⟨config, tag, d₀, ops ++ [op], h, by simp [run]⟩

/-- What a detector hands back, unless a thread runs out of clock values. -/
theorem Reached.result_eq (h : d.Reached) {op : Op Handle}
    (ho : overflows (d.step op).result = false) :
    (d.step op).result =
        (d.roster.refusal? K op).elim (.ok (d.value op)) (fun e => .error (.error e)) ∧
      (d.step op).state.roster =
        if d.roster.refusal? K op = none then d.roster.follow op else d.roster :=
  h.sound.result_eq_of_not_overflowed (h.handled op) ((Event.overflowed_eq _).trans ho)

/-- Two detectors of whatever rules agree on which threads there are and which of them have
exited, and on which locks and locations are kept. -/
structure Agrees (d : Detector rule K) (d' : Detector rule' K) : Prop where
  reached : d.Reached
  reached' : d'.Reached
  roster_eq : d'.roster = d.roster
  locks : ∀ lock, (d'.lockClock? lock).isSome = (d.lockClock? lock).isSome
  locations : ∀ x, (d'.entryAt? x).isSome = (d.entryAt? x).isSome

theorem agrees_of_create {config config' : Config} {tag : Nat}
    (h : create rule K config tag = .ok d) (h' : create rule' K config' tag = .ok d') :
    d.Agrees d' := by
  have hreached : d.Reached := ⟨config, tag, d, [], h, rfl⟩
  have hreached' : d'.Reached := ⟨config', tag, d', [], h', rfl⟩
  obtain ⟨-, rfl⟩ := create_eq_ok h
  obtain ⟨-, rfl⟩ := create_eq_ok h'
  exact ⟨hreached, hreached', rfl, fun _ => rfl, fun _ => rfl⟩

theorem Agrees.value_eq (h : d.Agrees d') (op : Op Handle) : d'.value op = d.value op := by
  cases op with
  | start => rw [value, value, h.roster_eq]
  | forgetLock lock => rw [value, value, h.locks]
  | init x | forget x => rw [value, value, h.locations]
  | fork | join | exit | acquire | release | access => rfl

/-- Detectors that agree answer alike and agree afterwards. -/
theorem Agrees.step (h : d.Agrees d') {op : Op Handle} (ho : overflows (d.step op).result = false)
    (ho' : overflows (d'.step op).result = false) :
    (d'.step op).result = (d.step op).result ∧ (d.step op).state.Agrees (d'.step op).state := by
  obtain ⟨hresult, hroster⟩ := h.reached.result_eq ho
  obtain ⟨hresult', hroster'⟩ := h.reached'.result_eq ho'
  rw [h.roster_eq, h.value_eq] at hresult'
  rw [h.roster_eq] at hroster'
  refine ⟨hresult'.trans hresult.symm, h.reached.step op, h.reached'.step op,
    hroster'.trans hroster.symm, fun lock => ?_, fun x => ?_⟩
  · rw [isSome_lockClock?_step, isSome_lockClock?_step, h.roster_eq, h.locks]
  · rw [isSome_entryAt?_step, isSome_entryAt?_step, h.roster_eq, h.locations]

theorem handle?_eq (d : Detector rule K) (t : Nat) : d.registry.handle? t =
    (d.roster.status? ⟨d.roster.tag, t⟩).map fun _ => ⟨d.roster.tag, t⟩ := by
  rw [Registry.handle?, roster, Registry.status?_roster]
  simp only [Registry.roster, Registry.lookup, if_true]
  cases d.registry.state? t <;> rfl

theorem Agrees.handle?_eq (h : d.Agrees d') (t : Nat) :
    d'.registry.handle? t = d.registry.handle? t := by
  rw [Detector.handle?_eq, Detector.handle?_eq, h.roster_eq]

end Detector

/-! ### What the program sees -/

/-- What was done and what it came to. -/
def Outcome.reply {K : Nat} (o : Outcome K) : Act Handle K × Except (Failure Error) Value :=
  (o.act, o.result)

namespace Trace

variable {K : Nat}

/-- All that was done with what it handed back to the program, in the order in which the program
got it. What the body of an access got comes before what the access itself hands back. -/
def answers : Trace K → List (Act Handle K × Except (Failure Error) Value)
  | .finish => []
  | .act outcome? rest | .refused outcome? rest =>
      outcome?.toList.map Outcome.reply ++ rest.answers
  | .access check body panics _ rest =>
      body.answers ++ (check.act, accessResult check panics) :: rest.answers

end Trace

namespace Session

variable {K : Nat} {s s' : Session K} {a : Act Handle K} {r : Reply (Session K) Value}
  {log : List (Outcome K)} {x : Address}

/-! ### Single acts -/

/-- What becomes of the reply to a call when the call may name a handle. -/
theorem act?_call (s : Session K) (i : Nat) (op : Op Handle) (name? : Option String) :
    s.act? (.call i op name?) = (s.call? i op).map fun r =>
      ⟨match r.result with
        | .ok (.handle t) => r.state.bind name? t
        | _ => r.state, r.result, r.notes⟩ := by
  simp only [act?]
  cases s.call? i op with
  | none => rfl
  | some r =>
    obtain ⟨state, (f | v), notes⟩ := r
    · rfl
    · cases v <;> rfl

theorem act?_load {s : Session K} {cell : Address} {value : Int}
    (hcell : s.cells[cell]? = some value) (i : Nat) (t : Handle) :
    s.act? (.load i t cell) =
      (s.call? i (.access t ⟨cell, .read⟩)).map (·.mapResult fun _ => .number value) := by
  rw [act?, hcell]
  cases s.call? i (.access t ⟨cell, .read⟩) <;> rfl

theorem act?_store (s : Session K) (i : Nat) (t : Handle) (cell : Address) (value : Int) :
    s.act? (.store i t cell value) = if s.cells.contains cell then
      (s.call? i (.access t ⟨cell, .write⟩)).map fun r =>
        ⟨match r.result with
          | .ok _ => { r.state with cells := r.state.cells.insert cell value }
          | .error _ => r.state, r.result, r.notes⟩
    else none := by
  by_cases hcell : s.cells.contains cell
  · simp only [act?, hcell, guard, if_true]
    cases s.call? i (.access t ⟨cell, .write⟩) with
    | none => rfl
    | some r =>
      obtain ⟨state, (f | v), notes⟩ := r <;> rfl
  · simp only [act?, hcell, guard]
    rfl

/-- The value of the last store to a cell that has not failed. -/
def lastStored? (x : Address) (log : List (Outcome K)) : Option Int :=
  log.reverse.findSome? fun o => o.act.written? x o.result

theorem lastStored?_cons (x : Address) (o : Outcome K) (log : List (Outcome K)) :
    lastStored? x (o :: log) = (lastStored? x log).or (o.act.written? x o.result) := by
  rw [lastStored?, List.reverse_cons, List.findSome?_append]
  simp [lastStored?]

/-- Only a store that succeeds changes a cell. -/
theorem cells_of_act? (h : s.act? a = some r) (x : Address) :
    r.state.cells[x]? = (a.written? x r.result).or s.cells[x]? := by
  cases a with
  | call i op name? =>
    rw [act?_call] at h
    obtain ⟨r₀, hcall, rfl⟩ := Option.map_eq_some_iff.mp h
    obtain ⟨rule, d, -, rfl⟩ := call?_eq_some.mp hcall
    rw [Act.written?_eq_none rfl]
    dsimp only
    split
    · cases name? <;> rfl
    · rfl
  | load i t cell =>
    rw [Act.written?_eq_none rfl]
    obtain ⟨value, -, h⟩ := Option.bind_eq_some_iff.mp h
    obtain ⟨r₀, hcall, h⟩ := Option.bind_eq_some_iff.mp h
    obtain ⟨rule, d, -, rfl⟩ := call?_eq_some.mp hcall
    obtain rfl := Option.some.inj h
    rfl
  | store i t cell value =>
    rw [act?_store, Option.ite_none_right_eq_some] at h
    obtain ⟨r₀, hcall, rfl⟩ := Option.map_eq_some_iff.mp h.2
    obtain ⟨rule, d, -, rfl⟩ := call?_eq_some.mp hcall
    dsimp only
    split
    · next v hr =>
      rw [hr]
      by_cases hx : cell = x
      · simp [Act.written?, Act.stored?, hx]
      · simp [Act.written?, Act.stored?, hx, Std.ExtTreeMap.getElem?_insert]
    · next f hr =>
      rw [hr]
      rfl
  | «recall» i thread name? =>
    rw [Act.written?_eq_none rfl]
    obtain ⟨⟨rule, d⟩, -, h⟩ := Option.bind_eq_some_iff.mp h
    obtain rfl := Option.some.inj h
    split
    · rfl
    · cases name? <;> rfl
  | observe | look =>
    obtain rfl := Option.some.inj h
    rw [Act.written?_eq_none rfl]
    rfl

theorem Does.cells_eq (h : s.Does log s') (x : Address) :
    s'.cells[x]? = (lastStored? x log).or s.cells[x]? := by
  induction h with
  | nil => rfl
  | cons hact _ ih => rw [ih, cells_of_act? hact, lastStored?_cons, Option.or_assoc]

/-- A load that succeeds hands back what the cell holds. -/
theorem result_load {i : Nat} {t : Handle} {v : Value} (h : s.act? (.load i t x) = some r)
    (hr : r.result = .ok v) : some v = s.cells[x]?.map .number := by
  obtain ⟨value, hvalue, h⟩ := Option.bind_eq_some_iff.mp h
  obtain ⟨r₀, -, h⟩ := Option.bind_eq_some_iff.mp h
  obtain rfl := Option.some.inj h
  rw [Reply.result_mapResult] at hr
  cases hr₀ : r₀.result with
  | error f => simp [hr₀, Except.map] at hr
  | ok u =>
    rw [hr₀] at hr
    rw [hvalue, Option.map_some, ← Except.ok.inj hr]

/-! ### Two sessions -/

/-- The same program under detectors that agree with each other one by one. -/
structure Alike (s s' : Session K) : Prop where
  names_eq : s'.names = s.names
  cells_eq : s'.cells = s.cells
  detectors : ∀ i, Option.Rel (fun d d' : AnyDetector K => d.2.Agrees d'.2) (s.detector? i)
    (s'.detector? i)

/-- At each position there is a detector in both sessions or in neither. -/
theorem Alike.detector?_cases (h : s.Alike s') (i : Nat) :
    (s.detector? i = none ∧ s'.detector? i = none) ∨
      ∃ any any', s.detector? i = some any ∧ s'.detector? i = some any' ∧ any.2.Agrees any'.2 := by
  have hi := h.detectors i
  generalize s.detector? i = o at hi
  generalize s'.detector? i = o' at hi
  cases hi with
  | none => exact .inl ⟨rfl, rfl⟩
  | some hagrees => exact .inr ⟨_, _, rfl, rfl, hagrees⟩

theorem Alike.resolve?_eq (h : s.Alike s') (t : ThreadRef) : s'.resolve? t = s.resolve? t := by
  cases t with
  | handle => rfl
  | name n => rw [resolve?, resolve?, h.names_eq]

theorem Alike.bind (h : s.Alike s') (name? : Option String) (t : Handle) :
    (s.bind name? t).Alike (s'.bind name? t) := by
  cases name? with
  | none => exact h
  | some n => exact ⟨by simp [Session.bind, h.names_eq], h.cells_eq, h.detectors⟩

/-- The session after a detector has changed. -/
theorem Alike.set (h : s.Alike s') {i : Nat} {any any' any₁ any₁' : AnyDetector K}
    (hd : s.detector? i = some any) (hd' : s'.detector? i = some any')
    (hagrees : any₁.2.Agrees any₁'.2) :
    Alike { s with detectors := s.detectors.set i any₁ }
      { s' with detectors := s'.detectors.set i any₁' } := by
  refine ⟨h.names_eq, h.cells_eq, fun j => ?_⟩
  by_cases hj : i = j
  · subst hj
    have hlt : i < s.detectors.length := (List.getElem?_eq_some_iff.mp hd).1
    have hlt' : i < s'.detectors.length := (List.getElem?_eq_some_iff.mp hd').1
    rw [detector?, detector?, List.getElem?_set_self hlt, List.getElem?_set_self hlt']
    exact .some hagrees
  · rw [detector?, detector?, List.getElem?_set_ne hj, List.getElem?_set_ne hj]
    exact h.detectors j

/-- What two replies have in common, unless an operation ran out of clock values. -/
def SameReply (r r' : Reply (Session K) Value) : Prop :=
  overflows r.result = false → overflows r'.result = false →
    r'.result = r.result ∧ r.state.Alike r'.state

theorem Alike.call?_cases (h : s.Alike s') (i : Nat) (op : Op Handle) :
    (s.call? i op = none ∧ s'.call? i op = none) ∨
      ∃ r r', s.call? i op = some r ∧ s'.call? i op = some r' ∧ SameReply r r' := by
  rcases h.detector?_cases i with ⟨hd, hd'⟩ | ⟨any, any', hd, hd', hagrees⟩
  · exact .inl ⟨by rw [call?, hd]; rfl, by rw [call?, hd']; rfl⟩
  · refine .inr ⟨_, _, by rw [call?, hd]; rfl, by rw [call?, hd']; rfl, fun ho ho' => ?_⟩
    obtain ⟨hresult, hstep⟩ := hagrees.step ho ho'
    exact ⟨hresult, h.set hd hd' hstep⟩

/-- What the same act has in common in two sessions, if it can be done. -/
def SameAct (a : Act Handle K) (s s' : Session K) : Prop :=
  (s.act? a = none ∧ s'.act? a = none) ∨
    ∃ r r', s.act? a = some r ∧ s'.act? a = some r' ∧ (a.meddles = false → SameReply r r')

theorem Alike.call (h : s.Alike s') (i : Nat) (op : Op Handle) (name? : Option String) :
    SameAct (.call i op name?) s s' := by
  rw [SameAct, act?_call, act?_call]
  rcases h.call?_cases i op with ⟨hcall, hcall'⟩ | ⟨r, r', hcall, hcall', hsame⟩
  · exact .inl ⟨by rw [hcall]; rfl, by rw [hcall']; rfl⟩
  · refine .inr ⟨_, _, by rw [hcall]; rfl, by rw [hcall']; rfl, fun _ ho ho' => ?_⟩
    obtain ⟨hresult, halike⟩ := hsame ho ho'
    refine ⟨hresult, ?_⟩
    simp only [hresult]
    split
    · exact halike.bind name? _
    · exact halike

theorem Alike.load (h : s.Alike s') (i : Nat) (t : Handle) (cell : Address) :
    SameAct (.load i t cell) s s' := by
  simp only [SameAct, Session.act?, h.cells_eq]
  cases s.cells[cell]? with
  | none => exact .inl ⟨rfl, rfl⟩
  | some value =>
    rcases h.call?_cases i (.access t ⟨cell, .read⟩) with
      ⟨hcall, hcall'⟩ | ⟨r, r', hcall, hcall', hsame⟩
    · exact .inl ⟨by rw [hcall]; rfl, by rw [hcall']; rfl⟩
    · refine .inr ⟨_, _, by rw [hcall]; rfl, by rw [hcall']; rfl, fun _ ho ho' => ?_⟩
      rw [Reply.result_mapResult, overflows_map] at ho ho'
      obtain ⟨hresult, halike⟩ := hsame ho ho'
      exact ⟨by rw [Reply.result_mapResult, Reply.result_mapResult, hresult], halike⟩

theorem Alike.store (h : s.Alike s') (i : Nat) (t : Handle) (cell : Address) (value : Int) :
    SameAct (.store i t cell value) s s' := by
  rw [SameAct, act?_store, act?_store, h.cells_eq]
  by_cases hcell : s.cells.contains cell
  · simp only [hcell, if_true]
    rcases h.call?_cases i (.access t ⟨cell, .write⟩) with
      ⟨hcall, hcall'⟩ | ⟨r, r', hcall, hcall', hsame⟩
    · exact .inl ⟨by rw [hcall]; rfl, by rw [hcall']; rfl⟩
    · refine .inr ⟨_, _, by rw [hcall]; rfl, by rw [hcall']; rfl, fun _ ho ho' => ?_⟩
      obtain ⟨hresult, halike⟩ := hsame ho ho'
      refine ⟨hresult, ?_⟩
      simp only [hresult]
      split
      · exact ⟨halike.names_eq, by rw [halike.cells_eq], halike.detectors⟩
      · exact halike
  · simp only [hcell]
    exact .inl ⟨rfl, rfl⟩

theorem Alike.recall (h : s.Alike s') (i thread : Nat) (name? : Option String) :
    SameAct (.recall i thread name?) s s' := by
  rcases h.detector?_cases i with ⟨hd, hd'⟩ | ⟨any, any', hd, hd', hagrees⟩
  · exact .inl ⟨by rw [Session.act?, hd]; rfl, by rw [Session.act?, hd']; rfl⟩
  · refine .inr ⟨_, _, by rw [Session.act?, hd]; rfl, by rw [Session.act?, hd']; rfl,
      fun _ _ _ => ?_⟩
    simp only [hagrees.handle?_eq]
    cases any.2.registry.handle? thread with
    | none => exact ⟨rfl, h⟩
    | some t => exact ⟨rfl, h.bind name? t⟩

theorem Alike.sameAct (h : s.Alike s') (a : Act Handle K) : SameAct a s s' := by
  cases a with
  | call i op name? => exact h.call i op name?
  | load i t cell => exact h.load i t cell
  | store i t cell value => exact h.store i t cell value
  | «recall» i thread name? => exact h.recall i thread name?
  | observe t clock =>
    exact .inr ⟨_, _, rfl, rfl, fun hplain => by simp [Act.meddles] at hplain⟩
  | look => exact .inr ⟨_, _, rfl, rfl, fun _ _ _ => ⟨rfl, h⟩⟩

/-- What two outcomes have in common, unless an operation ran out of clock values. -/
structure SameOutcome (o o' : Outcome K) : Prop where
  act_eq : o'.act = o.act
  same : o.act.meddles = false → overflows o.result = false → overflows o'.result = false →
    o'.result = o.result ∧ o.after.Alike o'.after

theorem Alike.perform?_cases (h : s.Alike s') (act : Act ThreadRef K) :
    (s.perform? act = none ∧ s'.perform? act = none) ∨
      ∃ o o', s.perform? act = some o ∧ s'.perform? act = some o' ∧ SameOutcome o o' := by
  have hresolve : s'.resolve? = s.resolve? := funext h.resolve?_eq
  simp only [perform?, hresolve]
  cases act.resolve s.resolve? with
  | none => exact .inl ⟨rfl, rfl⟩
  | some a =>
    rcases h.sameAct a with ⟨hact, hact'⟩ | ⟨r, r', hact, hact', hsame⟩
    · exact .inl ⟨by simp [hact], by simp [hact']⟩
    · exact .inr ⟨⟨a, r.result, r.state, r.notes⟩, ⟨a, r'.result, r'.state, r'.notes⟩,
        by simp [hact], by simp [hact'], rfl, hsame⟩

/-- A new session has a detector for each one that is asked for, and what else it has does not
depend on them. -/
theorem of_create {detectors : List (Rule × Config)} {cells : List (Address × Int)}
    (h : create K detectors cells = .ok s) :
    s.names = ∅ ∧ s.cells = .ofList cells ∧
      ∀ i, detectors.length ≤ i → s.detector? i = none := by
  obtain ⟨all, hall, h⟩ := bind_eq_ok.mp h
  obtain rfl := Except.ok.inj h
  refine ⟨rfl, rfl, fun i hi => ?_⟩
  have hget := map_getElem?_of_mapM hall i
  rw [List.getElem?_zipIdx, List.getElem?_eq_none hi] at hget
  simpa [detector?] using hget.symm

theorem alike_of_create {detectors detectors' : List (Rule × Config)}
    {cells : List (Address × Int)} (h : create K detectors cells = .ok s)
    (h' : create K detectors' cells = .ok s') (hlength : detectors'.length = detectors.length) :
    s.Alike s' := by
  obtain ⟨hnames, hcells, hout⟩ := of_create h
  obtain ⟨hnames', hcells', hout'⟩ := of_create h'
  refine ⟨hnames'.trans hnames.symm, hcells'.trans hcells.symm, fun i => ?_⟩
  rcases Nat.lt_or_ge i detectors.length with hi | hi
  · obtain ⟨d, hd, hat⟩ := exists_detector?_of_create h (List.getElem?_eq_getElem hi)
    obtain ⟨d', hd', hat'⟩ :=
      exists_detector?_of_create h' (List.getElem?_eq_getElem (hlength ▸ hi))
    rw [hat, hat']
    exact .some (Detector.agrees_of_create hd hd')
  · rw [hout i hi, hout' i (hlength.trans_le hi)]
    exact .none

/-! ### Scripts -/

/-- What the same script has in common in two sessions that are alike. -/
structure SameRun (script : Script K) (s s' : Session K) : Prop where
  alike : (script.run s).1.Alike (script.run s').1
  replies_eq : (script.log s').map Outcome.reply = (script.log s).map Outcome.reply
  answers_eq : (script.run s').2.answers = (script.run s).2.answers

section

variable {body rest : Script K} {o? o?' : Option (Outcome K)} {check check' : Outcome K}
  {act : Act ThreadRef K} {i : Nat} {t : ThreadRef} {access : Access} {panics : Bool}

theorem log_refused
    (h : (s.perform? (.call i (.access t access) none)).filter (·.succeeded) = none) :
    (Script.access i t access body panics rest).log s =
      (s.perform? (.call i (.access t access) none)).toList ++
        rest.log (s.following (s.perform? (.call i (.access t access) none))) := by
  simp only [Script.log, Script.run, h, Trace.outcomes]

theorem log_passed
    (h : (s.perform? (.call i (.access t access) none)).filter (·.succeeded) = some check) :
    (Script.access i t access body panics rest).log s =
      check :: (body.log check.after ++ rest.log (body.run check.after).1) := by
  simp only [Script.log, Script.run, h, Trace.outcomes]

theorem mem_log_access (h : s.perform? (.call i (.access t access) none) = some check)
    (body : Script K) (panics : Bool) (rest : Script K) :
    check ∈ (Script.access i t access body panics rest).log s := by
  cases hs : check.succeeded with
  | false =>
    rw [log_refused (by simp [h, hs]), h]
    exact List.mem_append_left _ List.mem_cons_self
  | true =>
    rw [log_passed (by rw [h]; simp [hs] : _ = some check)]
    exact List.mem_cons_self

theorem SameRun.of_act (hreply : o?'.map Outcome.reply = o?.map Outcome.reply)
    (hp : s.perform? act = o?) (hp' : s'.perform? act = o?')
    (h : SameRun rest (s.following o?) (s'.following o?')) :
    SameRun (.act act rest) s s' := by
  subst hp hp'
  have hlist := congrArg Option.toList hreply
  rw [Option.toList_map, Option.toList_map] at hlist
  refine ⟨h.alike, ?_, ?_⟩
  · change List.map Outcome.reply (_ ++ rest.log _) = List.map Outcome.reply (_ ++ rest.log _)
    rw [List.map_append, List.map_append, hlist, h.replies_eq]
  · change List.map Outcome.reply _ ++ Trace.answers _ = List.map Outcome.reply _ ++ Trace.answers _
    rw [hlist, h.answers_eq]

/-- An access that is refused in both sessions. -/
theorem SameRun.of_refused (hreply : o?'.map Outcome.reply = o?.map Outcome.reply)
    (hp : s.perform? (.call i (.access t access) none) = o?)
    (hp' : s'.perform? (.call i (.access t access) none) = o?')
    (hnone : o?.filter (·.succeeded) = none) (hnone' : o?'.filter (·.succeeded) = none)
    (h : SameRun rest (s.following o?) (s'.following o?')) :
    SameRun (.access i t access body panics rest) s s' := by
  subst hp hp'
  have hlist := congrArg Option.toList hreply
  rw [Option.toList_map, Option.toList_map] at hlist
  refine ⟨?_, ?_, ?_⟩
  · simp only [Script.run, hnone, hnone']
    exact h.alike
  · simp only [Script.log, Script.run, hnone, hnone', Trace.outcomes]
    rw [List.map_append, List.map_append, hlist]
    exact congrArg _ h.replies_eq
  · simp only [Script.run, hnone, hnone', Trace.answers, hlist, h.answers_eq]

/-- An access that passes its check in both sessions. -/
theorem SameRun.of_passed (hreply : check'.reply = check.reply)
    (hp : (s.perform? (.call i (.access t access) none)).filter (·.succeeded) = some check)
    (hp' : (s'.perform? (.call i (.access t access) none)).filter (·.succeeded) = some check')
    (hbody : SameRun body check.after check'.after)
    (hrest : SameRun rest (body.run check.after).1 (body.run check'.after).1) :
    SameRun (.access i t access body panics rest) s s' := by
  obtain ⟨hact, hresult⟩ := Prod.mk.inj hreply
  refine ⟨?_, ?_, ?_⟩
  · simp only [Script.run, hp, hp']
    exact hrest.alike
  · have hinner := hbody.replies_eq
    have houter := hrest.replies_eq
    simp only [Script.log] at hinner houter
    simp only [Script.log, Script.run, hp, hp', Trace.outcomes, List.map_cons, List.map_append,
      hreply, hinner, houter]
  · simp only [Script.run, hp, hp', Trace.answers, hbody.answers_eq, hrest.answers_eq, hact,
      Trace.accessResult, hresult]

end

theorem SameOutcome.reply_eq {o o' : Outcome K} (h : SameOutcome o o')
    (hresult : o'.result = o.result) : o'.reply = o.reply := by
  rw [Outcome.reply, Outcome.reply, h.act_eq, hresult]

/-- Nothing meddles with what a thread knows, and no thread runs out of clock values. -/
structure Undisturbed (log log' : List (Outcome K)) : Prop where
  plain : ∀ o ∈ log, o.act.meddles = false
  room : ∀ o ∈ log, overflows o.result = false
  room' : ∀ o ∈ log', overflows o.result = false

namespace Undisturbed

variable {log' rest rest' : List (Outcome K)} {o o' : Outcome K}

theorem mono (h : Undisturbed log log') (hsub : rest ⊆ log) (hsub' : rest' ⊆ log') :
    Undisturbed rest rest' :=
  ⟨fun o ho => h.plain o (hsub ho), fun o ho => h.room o (hsub ho),
    fun o ho => h.room' o (hsub' ho)⟩

theorem tail (h : Undisturbed (o :: log) (o' :: log')) : Undisturbed log log' :=
  h.mono (List.subset_cons_self o log) (List.subset_cons_self o' log')

theorem left (h : Undisturbed (log ++ rest) (log' ++ rest')) : Undisturbed log log' :=
  h.mono (List.subset_append_left log rest) (List.subset_append_left log' rest')

theorem right (h : Undisturbed (log ++ rest) (log' ++ rest')) : Undisturbed rest rest' :=
  h.mono (List.subset_append_right log rest) (List.subset_append_right log' rest')

/-- Things that are done in both sessions and are the same but for what disturbs. -/
theorem same (h : Undisturbed log log') (hsame : SameOutcome o o') (hmem : o ∈ log)
    (hmem' : o' ∈ log') : o'.result = o.result ∧ o.after.Alike o'.after :=
  hsame.same (h.plain o hmem) (h.room o hmem) (h.room' o' hmem')

end Undisturbed

/-- A script comes to the same in two sessions that are alike. -/
theorem Alike.sameRun (script : Script K) (h : s.Alike s')
    (hlogs : Undisturbed (script.log s) (script.log s')) : SameRun script s s' := by
  induction script generalizing s s' with
  | finish => exact ⟨h, rfl, rfl⟩
  | act act rest ih =>
    have hlog (s : Session K) : (Script.act act rest).log s =
      (s.perform? act).toList ++ rest.log (s.following (s.perform? act)) := rfl
    rw [hlog, hlog] at hlogs
    rcases h.perform?_cases act with ⟨hp, hp'⟩ | ⟨o, o', hp, hp', hsame⟩
    · rw [hp, hp'] at hlogs
      exact .of_act rfl hp hp' (ih h hlogs.right)
    · rw [hp, hp'] at hlogs
      obtain ⟨hresult, halike⟩ := hlogs.left.same hsame (by simp) (by simp)
      refine .of_act ?_ hp hp' (ih halike hlogs.right)
      rw [Option.map_some, Option.map_some, hsame.reply_eq hresult]
  | access i t access body panics rest ihbody ihrest =>
    rcases h.perform?_cases (.call i (.access t access) none) with
      ⟨hp, hp'⟩ | ⟨o, o', hp, hp', hsame⟩
    · rw [log_refused (by rw [hp]; rfl), log_refused (by rw [hp']; rfl), hp, hp'] at hlogs
      exact .of_refused rfl hp hp' rfl rfl (ihrest h hlogs.right)
    · -- Both logs have the check in them, whether or not the body runs after it.
      obtain ⟨hresult, halike⟩ := hlogs.same hsame (mem_log_access hp body panics rest)
        (mem_log_access hp' body panics rest)
      have hreply := hsame.reply_eq hresult
      have hsucceeded : o'.succeeded = o.succeeded := by
        rw [Outcome.succeeded, Outcome.succeeded, hresult]
      cases hs : o.succeeded with
      | false =>
        have hf : (some o).filter (·.succeeded) = none := by simp [hs]
        have hf' : (some o').filter (·.succeeded) = none := by simp [hsucceeded, hs]
        rw [log_refused (hp ▸ hf), log_refused (hp' ▸ hf'), hp, hp'] at hlogs
        refine .of_refused ?_ hp hp' hf hf' (ihrest halike hlogs.right)
        rw [Option.map_some, Option.map_some, hreply]
      | true =>
        have hf : (s.perform? (.call i (.access t access) none)).filter (·.succeeded) =
            some o := by
          simp [hp, hs]
        have hf' : (s'.perform? (.call i (.access t access) none)).filter (·.succeeded) =
            some o' := by
          simp [hp', hsucceeded, hs]
        rw [log_passed hf, log_passed hf'] at hlogs
        have hbody := ihbody halike hlogs.tail.left
        exact .of_passed hreply hf hf' hbody (ihrest hbody.alike hlogs.tail.right)

/-! ### The program and its memory -/

/-- What a cell holds after the first of some things that were done. -/
theorem Does.cells_upTo (h : s.Does log s') (n : Nat) (x : Address) :
    (s.upTo log n).cells[x]? = (lastStored? x (log.take n)).or s.cells[x]? :=
  (h.take n).cells_eq x

theorem lastStored?_eq_of_replies {log' : List (Outcome K)}
    (h : log'.map Outcome.reply = log.map Outcome.reply) (x : Address) :
    lastStored? x log' = lastStored? x log := by
  have hreplies (log : List (Outcome K)) : lastStored? x log =
      (log.map Outcome.reply).reverse.findSome? fun (a, result) => a.written? x result := by
    rw [← List.map_reverse, List.findSome?_map]
    rfl
  rw [hreplies, hreplies, h]

/-- Observation is transparent to the program. A script runs in two sessions that differ in the
rules and the options of their detectors, and in neither of them a thread runs out of clock
values. Then the program gets the same answers in both, to the same things done in the same
order, whatever is found and reported, and the cells hold the same after each of them. A load
that succeeds hands back what was last stored in the cell, or what the cell held at first, and
whatever fails leaves all cells as they were. -/
theorem observation_transparent {detectors detectors' : List (Rule × Config)}
    {cells : List (Address × Int)} (h : create K detectors cells = .ok s)
    (h' : create K detectors' cells = .ok s') (hlength : detectors'.length = detectors.length)
    (script : Script K) (hplain : ∀ o ∈ script.log s, o.act.meddles = false)
    (ho : ∀ o ∈ script.log s, overflows o.result = false)
    (ho' : ∀ o ∈ script.log s', overflows o.result = false) :
    (script.run s').2.answers = (script.run s).2.answers ∧
      (script.log s').map Outcome.reply = (script.log s).map Outcome.reply ∧
      (script.run s').1.cells = (script.run s).1.cells ∧
      (∀ n (x : Address),
        (s'.upTo (script.log s') n).cells[x]? = (s.upTo (script.log s) n).cells[x]?) ∧
      ∀ n o, (script.log s)[n]? = some o →
        (∀ i t x v, o.act = .load i t x → o.result = .ok v → some v =
          ((lastStored? x ((script.log s).take n)).or s.cells[x]?).map .number) ∧
        ∀ f (x : Address), o.result = .error f →
          o.after.cells[x]? = (s.upTo (script.log s) n).cells[x]? := by
  have halike := alike_of_create h h' hlength
  obtain ⟨hend, hreplies, hanswers⟩ := halike.sameRun script ⟨hplain, ho, ho'⟩
  have hdoes := s.does_log script
  have hdoes' := s'.does_log script
  refine ⟨hanswers, hreplies, hend.cells_eq, fun n x => ?_, fun n o hn => ⟨?_, ?_⟩⟩
  · have htake : ((script.log s').take n).map Outcome.reply =
        ((script.log s).take n).map Outcome.reply := by
      rw [List.map_take, List.map_take, hreplies]
    rw [hdoes.cells_upTo, hdoes'.cells_upTo, lastStored?_eq_of_replies htake, halike.cells_eq]
  · intro i t x v hact hresult
    have hload := hdoes.act?_upTo hn
    rw [hact] at hload
    rw [← hdoes.cells_upTo n x]
    exact result_load hload hresult
  · intro f x hresult
    have hcells := cells_of_act? (hdoes.act?_upTo hn) x
    rw [hresult] at hcells
    exact hcells

/-- A detector under some rule and some options, and two cells. -/
def watched (rule : Rule) (config : Config) : Session 2 :=
  ⟨[⟨rule, ⟨config, .empty 0, .empty, .empty, 0⟩⟩], .ofList [((7, 5) : Address × Int), (8, 1)], ∅⟩

/-- Two threads store in one cell without an order. The second one does so while it makes an
access to the other cell, where the cell is forgotten too, and this access panics. Then a thread
that has exited fails to store, and the first cell is read. -/
def disturbed : Script 2 :=
  .act (.call 0 .start (some "a")) <| .act (.call 0 .start (some "b")) <|
    .act (.store 0 (.name "a") 7 6) <|
    .access 0 (.name "b") ⟨8, .write⟩
      (.act (.store 0 (.name "b") 7 9) <| .act (.call 0 (.forget 7) none) .finish) true <|
    .act (.call 0 (.exit (.name "a")) none) <| .act (.store 0 (.name "a") 7 3) <|
    .act (.load 0 (.name "b") 7) .finish

theorem disturbed_alike : create 2 [(.epoch, .default)] [(7, 5), (8, 1)] =
      .ok (watched .epoch .default) ∧
    create 2 [(.precise, ⟨.firstPerLocation, 0⟩)] [(7, 5), (8, 1)] =
      .ok (watched .precise ⟨.firstPerLocation, 0⟩) ∧
    (disturbed.run (watched .precise ⟨.firstPerLocation, 0⟩)).2.answers.getLast? =
      some (.load 0 ⟨0, 2⟩ 7, .ok (.number 9)) := by
  have h : create 2 [(.epoch, .default)] [(7, 5), (8, 1)] = .ok (watched .epoch .default) := rfl
  have h' : create 2 [(.precise, ⟨.firstPerLocation, 0⟩)] [(7, 5), (8, 1)] =
      .ok (watched .precise ⟨.firstPerLocation, 0⟩) := rfl
  obtain ⟨hanswers, -⟩ := observation_transparent h h' rfl disturbed (by decide) (by decide)
    (by decide)
  refine ⟨h, h', ?_⟩
  rw [hanswers]
  decide

end Session

end RaceWatch
