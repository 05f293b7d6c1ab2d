import RaceWatch.Proofs.Reports

/-!
What each operation reports. An access reports the races that its check finds, and no other
operation reports any. The records of the locations and the total follow from what was reported
since a location was last forgotten, whatever else a detector keeps.
-/

namespace RaceWatch

namespace Detector

variable {rule : Rule} {K : Nat} {d : Detector rule K} {op : Op Handle} {x : Address}

/-- What the check of an access comes to, which is a finding if the access goes through. -/
def examine (d : Detector rule K) (t : Handle) (a : Access) :
    Except (Failure Error) (Finding (rule.History K) K) :=
  match d.registry.lookup t with
  | .error e => .error (.error e)
  | .ok s => match s.ensureAlive with
    | .error e => .error (.error e)
    | .ok () => (rule.check (d.entryOf a.address).history s a).mapError (Failure.map .fatal)

/-- The races on a location that an operation reports, in order. -/
def reported (d : Detector rule K) (x : Address) : Op Handle → List RaceEvent
  | .access t a => match d.examine t a with
    | .ok f => if a.address = x then Entry.eventsOf f x else []
    | .error _ => []
  | .start | .fork .. | .join .. | .exit _ | .acquire .. | .release .. | .forgetLock _ | .init _
  | .forget _ => []

/-- The races on a location that are reported in a run since the location was last forgotten,
one list for each operation. -/
def reports (d : Detector rule K) (ops : List (Op Handle)) (x : Address) :
    Nat → List (List RaceEvent)
  | 0 => []
  | n + 1 => match ops[n]? with
    | none => d.reports ops x n
    | some op =>
        if op = .forget x then [] else d.reports ops x n ++ [(d.after ops n).reported x op]

/-- An access that comes to a finding leaves the thread and the entry that it says, and one that
does not leaves all threads and entries alone. -/
theorem examine_cases (d : Detector rule K) (t : Handle) (a : Access) :
    (∃ error, d.examine t a = .error error ∧ (d.step (.access t a)).result = .error error ∧
        (d.step (.access t a)).state.registry = d.registry ∧
        ∀ x, (d.step (.access t a)).state.entryOf x = d.entryOf x) ∨
      ∃ f, d.examine t a = .ok f ∧ (d.step (.access t a)).result = .ok .unit ∧
        (d.step (.access t a)).state.registry = d.registry.put f.thread ∧
        ∀ x, (d.step (.access t a)).state.entryOf x =
          if x = a.address then (d.entryOf x).found d.config x f else d.entryOf x := by
  have hmonitor := d.entryOf_monitor a.address
  have hentry : d.entryOf a.address = d.shadow.getD a.address (.neutral a.address) := rfl
  simp only [step, Reply.state_mapResult, Reply.result_mapResult, examine]
  cases hl : d.registry.lookup t with
  | error e =>
    simp only [access, hl]
    exact .inl ⟨_, rfl, rfl, rfl, fun _ => rfl⟩
  | ok s =>
    cases ha : s.ensureAlive with
    | error e =>
      simp only [access, hl, ha]
      exact .inl ⟨_, rfl, rfl, rfl, hmonitor⟩
    | ok =>
      cases hc : rule.check (d.entryOf a.address).history s a with
      | error f =>
        have hcheck := Entry.check_of_error hc d.config
        rw [hentry] at hcheck
        simp only [access, hl, ha, hcheck, Reply.state_halt, Reply.result_halt]
        exact .inl ⟨_, by rw [hc]; rfl, rfl, trivial, hmonitor⟩
      | ok f =>
        obtain ⟨checked, hcheck, hfound, hthread⟩ := Entry.check_of_ok hc d.config
        rw [hentry] at hcheck
        simp only [access, hl, ha, hcheck, Reply.state_done, Reply.result_done]
        refine .inr ⟨f, by rw [hc]; rfl, rfl, by rw [hthread], fun x => ?_⟩
        simp only [entryOf, ShadowMemory.getD, ShadowMemory.get?_put, ShadowMemory.get?_monitor]
        by_cases hx : a.address = x
        · subst hx
          simp [hfound, hentry, ShadowMemory.getD]
        · simp [hx, Ne.symm hx]

theorem step_of_examine {t : Handle} {a : Access} {f : Finding (rule.History K) K}
    (hf : d.examine t a = .ok f) :
    (d.step (.access t a)).result = .ok .unit ∧
      (d.step (.access t a)).state.registry = d.registry.put f.thread ∧
      ∀ x, (d.step (.access t a)).state.entryOf x =
        if x = a.address then (d.entryOf x).found d.config x f else d.entryOf x := by
  rcases d.examine_cases t a with ⟨error, he, -⟩ | ⟨f', hf', hstep⟩
  · simp [he] at hf
  · obtain rfl := Except.ok.inj (hf'.symm.trans hf)
    exact hstep

theorem step_of_examine_error {t : Handle} {a : Access} {error : Failure Error}
    (he : d.examine t a = .error error) :
    (d.step (.access t a)).result = .error error ∧
      (d.step (.access t a)).state.registry = d.registry ∧
      ∀ x, (d.step (.access t a)).state.entryOf x = d.entryOf x := by
  rcases d.examine_cases t a with ⟨error', he', hstep⟩ | ⟨f, hf, -⟩
  · obtain rfl := Except.error.inj (he'.symm.trans he)
    exact hstep
  · simp [hf] at he

/-- The record of a location after an operation. -/
theorem races_step (d : Detector rule K) (op : Op Handle) (x : Address) :
    ((d.step op).state.entryOf x).races = if op = .forget x then .empty
      else (d.entryOf x).races.reportAll d.config (d.reported x op) := by
  obtain ⟨t, a, rfl⟩ | hne := op.access_or_ne
  · rw [if_neg (by simp)]
    rcases d.examine_cases t a with ⟨error, hexamine, -, -, hentry⟩ | ⟨f, hf, -, -, hentry⟩
    · rw [hentry, reported, hexamine]
      rfl
    · rw [hentry, reported, hf]
      by_cases hx : a.address = x
      · simp only [if_pos hx.symm, if_pos hx]
        rfl
      · simp only [if_neg (Ne.symm hx), if_neg hx]
        rfl
  · rw [entryOf_step _ hne]
    split
    · rfl
    · cases op with
      | access t a => exact absurd rfl (hne t a)
      | start | fork | join | exit | acquire | release | forgetLock | init | forget => rfl

/-- Where every race counts, a location counts all that was reported of it, and its record keeps
the first of that. -/
theorem races_after_every {config : Config} {tag : Nat} (h : create rule K config tag = .ok d)
    (hevery : config.reporting = .every) (ops : List (Op Handle)) (x : Address) (n : Nat) :
    ((d.after ops n).entryOf x).races = ⟨(d.reports ops x n).flatten.length,
      (d.reports ops x n).flatten.take config.maxEvents⟩ := by
  induction n with
  | zero =>
    obtain ⟨-, rfl⟩ := create_eq_ok h
    simp [entryOf, ShadowMemory.getD, reports, Entry.neutral, RaceRecord.empty]
  | succ n ih =>
    rw [reports]
    cases hop : ops[n]? with
    | none => rwa [after_succ_of_none d hop]
    | some op =>
      rw [after_succ d hop, races_step, config_after h ops n]
      dsimp only
      by_cases hforget : op = .forget x
      · rw [if_pos hforget, if_pos hforget]
        simp [RaceRecord.empty]
      · rw [if_neg hforget, if_neg hforget, List.flatten_append, List.flatten_singleton]
        exact RaceRecord.reportAll_every hevery _ ih _

/-- As long as the record of a location is not full, it holds all that was reported. -/
theorem raceEvents_after_every {config : Config} {tag : Nat}
    (h : create rule K config tag = .ok d) (hevery : config.reporting = .every)
    (ops : List (Op Handle)) (x : Address) {n : Nat}
    (hroom : (d.after ops n).raceCount x ≤ config.maxEvents) :
    (d.after ops n).raceEvents x = (d.reports ops x n).flatten := by
  have hraces := races_after_every h hevery ops x n
  rw [raceCount_eq, hraces] at hroom
  rw [raceEvents_eq, hraces]
  exact List.take_of_length_le hroom

/-! ### Two runs with as many reports -/

variable {K' : Nat} {d' : Detector rule K'} {op' : Op Handle}

/-- If each location counts as many races in two detectors, before as well as after an operation
that differs in its threads at most, the totals stay equal. -/
theorem totalRaces_step_eq (hop : op'.map (fun _ => ()) = op.map fun _ => ())
    (hd : d.Placed) (hd' : d'.Placed) (htotal : d'.totalRaces = d.totalRaces)
    (hcount : ∀ x, d'.raceCount x = d.raceCount x)
    (hcount' : ∀ x, (d'.step op').state.raceCount x = (d.step op).state.raceCount x) :
    (d'.step op').state.totalRaces = (d.step op).state.totalRaces := by
  obtain ⟨t, a, rfl⟩ | hne := op.access_or_ne
  · obtain ⟨t', rfl, -⟩ := Op.map_eq_access.mp hop
    have hbefore := hd.totalRaces_access t a
    have hbefore' := hd'.totalRaces_access t' a
    have hx := hcount a.address
    have hx' := hcount' a.address
    omega
  · have hne' (t : Handle) (a : Access) : op' ≠ .access t a := by
      rintro rfl
      obtain ⟨t', rfl, -⟩ := Op.map_eq_access.mp hop.symm
      exact hne t' a rfl
    rw [totalRaces_step_of_ne_access _ hne, totalRaces_step_of_ne_access _ hne', htotal]

end Detector

end RaceWatch
