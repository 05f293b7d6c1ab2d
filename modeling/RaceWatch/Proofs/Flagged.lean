import RaceWatch.Proofs.Adjacent
import RaceWatch.Proofs.Detection
import RaceWatch.Proofs.Placement

/-!
When a location has been flagged at all, whatever the options say about the reports: the
first race of a location counts under all of them. The epoch rule flags every location that
is racy, and the precise rule one of which two adjacent visits race. Neither flags a
location that is not racy.
-/

namespace RaceWatch

theorem pair_infix_iff_mem_zip_tail {α : Type} {a b : α} {l : List α} :
    [a, b] <:+: l ↔ (a, b) ∈ l.zip l.tail := by
  induction l with
  | nil => simp
  | cons c rest ih =>
    cases rest with
    | nil => simp [List.infix_cons_iff]
    | cons d rest =>
      have hprefix : [a, b] <+: c :: d :: rest ↔ (a, b) = (c, d) := by simp
      rw [List.infix_cons_iff, ih, hprefix, List.tail_cons, List.tail_cons, List.zip_cons_cons,
        List.mem_cons]

/-- The thread and the kind of an access to a location. -/
def Op.touch? (x : Address) : Op Handle → Option (Nat × AccessKind)
  | .access t a => if a.address = x then some (t.thread, a.kind) else none
  | _ => none

/-- The accesses to a location among some operations. -/
def accesses (x : Address) (ops : List (Op Handle)) : List (Nat × AccessKind) :=
  ops.filterMap (Op.touch? x)

theorem accesses_concat (x : Address) (ops : List (Op Handle)) (op : Op Handle) :
    accesses x (ops ++ [op]) = accesses x ops ++ (op.touch? x).toList := by
  rw [accesses, List.filterMap_append, ← accesses]
  cases hop : op.touch? x <;> simp [hop]

/-- A visit as an access to its location. -/
def Visit.touch (v : Visit) : Nat × AccessKind := (v.thread, v.kind)

namespace Chronicle

variable {rule : Rule} {K : Nat} {H : Chronicle} {config : Config} {x : Address} {n : Nat}
  {visits : List Visit} {v w : Visit}

/-- If a location is not forgotten and all accesses succeed, all accesses to the location
count for it. -/
theorem map_touch_visits (hs : ∀ e ∈ H, ∀ t a, e.op = .access t a → e.succeeded = true)
    (hkeep : ∀ e ∈ H, e.op ≠ .forget x) (n : Nat) :
    (H.visits x n).map Visit.touch = accesses x ((H.take n).map (·.op)) := by
  induction n with
  | zero => simp [visits, accesses]
  | succ n ih =>
    cases hn : H[n]? with
    | none => rw [visits_succ_of_none hn, ih, List.take_add_one, hn, Option.toList_none,
        List.append_nil]
    | some e =>
      rw [visits_succ hn, List.take_add_one, hn, Option.toList_some, List.map_append,
        List.map_singleton, accesses_concat, ← ih]
      have he := List.mem_of_getElem? hn
      cases hop : e.op with
      | access t a =>
        by_cases hx : a.address = x
        · simp [Event.revisit, hop, hs e he t a hop, hx, Op.touch?, Visit.touch]
        · simp [Event.revisit, hop, hx, Op.touch?]
      | forget y =>
        have hy : y ≠ x := fun hy => hkeep e he (by rw [hop, hy])
        simp [Event.revisit, hop, hy, Op.touch?]
      | start | fork | join | exit | acquire | release | forgetLock | init =>
        simp [Event.revisit, hop, Op.touch?]

theorem count_found_eq_zero {entry : Entry rule K} {f : Finding (rule.History K) K} :
    (entry.found config x f).races.count = 0 ↔ entry.races.count = 0 ∧ Entry.eventsOf f x = [] :=
  RaceRecord.count_reportAll_eq_zero

/-- Only a location that is racy has races counted on it. -/
theorem Leaves.not_calm {entry : Entry rule K} (hle : H.Leaves config x visits entry)
    (hl : H.Legal rule K) (hcount : entry.races.count ≠ 0) : ¬ H.Calm visits := by
  induction hle with
  | neutral => exact absurd rfl hcount
  | @check visits v entry s f before earlier checks ih =>
    intro hcalm
    by_cases hzero : entry.races.count = 0
    · have hraces : Entry.eventsOf f x ≠ [] := fun hnil =>
        hcount (count_found_eq_zero.mpr ⟨hzero, hnil⟩)
      obtain ⟨⟨kind, u⟩, hrace⟩ := List.exists_mem_of_ne_nil f.races fun hnil =>
        hraces (by rw [Entry.eventsOf, hnil, List.map_nil])
      obtain ⟨w, hw, -, hr, -⟩ := before.race hl checks earlier hrace
      rcases hcalm w (List.mem_append_left _ hw) v (List.mem_append_right _ List.mem_cons_self)
        hr.conflict with hwv | hvw
      · exact hr.unordered hwv
      · exact not_happensBefore_of_mem (earlier ▸ hw) le_rfl hvw
    · refine ih hzero fun w hw u hu => ?_
      exact hcalm w (List.mem_append_left _ hw) u (List.mem_append_left _ hu)

/-- Under the precise rule a location is flagged by a race between adjacent visits. -/
theorem Leaves.count_eq_zero_iff {entry : Entry .precise K}
    (hle : H.Leaves config x visits entry) (hl : H.Legal .precise K) (ho : H.NoOverflow) :
    entry.races.count = 0 ↔ H.adjacentRaces x visits = [] := by
  induction hle with
  | neutral => simp [adjacentRaces, Entry.neutral, RaceRecord.empty]
  | check before earlier checks ih =>
    rw [count_found_eq_zero, ih, adjacentRaces_concat, ← before.eventsOf_eq checks hl ho earlier]
    exact List.append_eq_nil_iff.symm

theorem race?_eq_none :
    H.race? x w v = none ↔ (Conflict w v → H.HappensBefore w.position v.position) := by
  have hkinds : RaceKind.between? w.kind v.kind = none ↔
      ¬ (w.kind = .write ∨ v.kind = .write) := by
    rw [RaceKind.between?_eq_none]
    cases w.kind <;> cases v.kind <;> simp
  by_cases hrace : w.thread ≠ v.thread ∧ ¬ H.HappensBefore w.position v.position
  · rw [race?, if_pos hrace, Option.map_eq_none_iff, hkinds, Conflict]
    simp [hrace.1, hrace.2]
  · rw [race?, if_neg hrace, Conflict]
    simp only [true_iff]
    intro hconflict
    by_contra hnot
    exact hrace ⟨hconflict.1, hnot⟩

theorem adjacentRaces_eq_nil : H.adjacentRaces x visits = [] ↔
    ∀ w v, [w, v] <:+: visits → Conflict w v → H.HappensBefore w.position v.position := by
  simp only [adjacentRaces, List.filterMap_eq_nil_iff, Prod.forall, race?_eq_none,
    pair_infix_iff_mem_zip_tail]

end Chronicle

/-- What a check counts is what it adds to the count of its location. -/
theorem Entry.count_of_check {rule : Rule} {K : Nat} {entry : Entry rule K} {config : Config}
    {s : ThreadState K} {a : Access} {checked : CheckedAccess rule K}
    (h : entry.check config s a = .ok checked) :
    checked.entry.races.count = entry.races.count + checked.counted := by
  obtain ⟨f, -, h⟩ := bind_eq_ok.mp h
  obtain rfl := Except.ok.inj h
  exact RaceRecord.count_reportAll _ _ _

namespace Detector

variable {rule : Rule} {K : Nat} {d : Detector rule K} {config : Config} {tag : Nat}

/-- Neither rule flags a location that is not racy. -/
theorem racy_of_raceCount_pos (h : create rule K config tag = .ok d) (ops : List (Op Handle))
    {x : Address} {n : Nat} (hpos : 0 < (d.after ops n).raceCount x) :
    (d.chronicle ops).Racy x n := by
  rw [raceCount_eq] at hpos
  rw [Chronicle.racy_iff_not_calm]
  exact (leaves_entryOf h ops x n).not_calm (legal_chronicle h ops) (Nat.pos_iff_ne_zero.mp hpos)

/-- The epoch rule flags every location that is racy. -/
theorem raceCount_pos_of_racy {d : Detector .epoch K} (h : create .epoch K config tag = .ok d)
    (ops : List (Op Handle)) (ho : (d.chronicle ops).NoOverflow) {x : Address} {n : Nat}
    (hracy : (d.chronicle ops).Racy x n) : 0 < (d.after ops n).raceCount x := by
  have hcalm := ((leaves_entryOf h ops x n).calm_iff (legal_chronicle h ops) ho).1
  rw [raceCount_eq, Nat.pos_iff_ne_zero]
  intro hzero
  exact Chronicle.racy_iff_not_calm.mp hracy (hcalm hzero).2

/-- The precise rule flags a location exactly if two adjacent visits conflict and the
first does not happen before the second. -/
theorem raceCount_pos_iff_adjacent {d : Detector .precise K}
    (h : create .precise K config tag = .ok d) (ops : List (Op Handle))
    (ho : (d.chronicle ops).NoOverflow) (x : Address) (n : Nat) :
    0 < (d.after ops n).raceCount x ↔ ∃ w v, [w, v] <:+: (d.chronicle ops).visits x n ∧
      Chronicle.Conflict w v ∧ ¬ (d.chronicle ops).HappensBefore w.position v.position := by
  have hzero := (leaves_entryOf h ops x n).count_eq_zero_iff (legal_chronicle h ops) ho
  rw [raceCount_eq, Nat.pos_iff_ne_zero, Ne, hzero, Chronicle.adjacentRaces_eq_nil]
  push Not
  rfl

/-! ### The total -/

/-- The check of an access counts as much in the total as on its location. -/
theorem Placed.totalRaces_access (hd : d.Placed) (h : Handle) (a : Access) :
    (d.step (.access h a)).state.totalRaces + d.raceCount a.address =
      d.totalRaces + (d.step (.access h a)).state.raceCount a.address := by
  have hmonitor := d.entryOf_monitor a.address a.address
  simp only [raceCount_eq, Detector.step, Reply.state_mapResult]
  cases hl : d.registry.lookup h with
  | error e => simp only [access, hl, Reply.state_fail]
  | ok s =>
    cases ha : s.ensureAlive with
    | error e => simp only [access, hl, ha, Reply.state_fail, hmonitor]
    | ok =>
      rcases hd.check_cases hl a with ⟨checked, hc⟩ | ⟨-, v, -, hc⟩
      · have hcount := Entry.count_of_check hc
        rw [entryOf] at hc
        have hafter : entryOf { d with
            registry := d.registry.put checked.thread
            shadow := (d.shadow.monitor a.address (.neutral a.address)).put a.address checked.entry
            totalRaces := d.totalRaces + checked.counted } a.address = checked.entry := by
          simp [entryOf, ShadowMemory.getD, ShadowMemory.get?_put]
        simp only [access, hl, ha, hc, Reply.state_done]
        rw [hafter, hcount]
        omega
      · -- The thread has not begun its new event, so nothing has been reported.
        rw [entryOf] at hc
        simp only [access, hl, ha, hc, Reply.state_halt, hmonitor]

theorem totalRaces_step_of_ne_access (d : Detector rule K) {op : Op Handle}
    (hop : ∀ h a, op ≠ .access h a) : (d.step op).state.totalRaces = d.totalRaces := by
  cases op with
  | access h a => exact absurd rfl (hop h a)
  | start | fork | join | exit | forgetLock | init | forget => rfl
  | acquire lock h | release lock h =>
    simp only [step, acquire, release, Reply.state_mapResult]
    split <;> rfl

/-- As long as one location alone is accessed and it is not forgotten, all races are
counted on it. -/
theorem totalRaces_eq_raceCount (h : create rule K config tag = .ok d) {ops : List (Op Handle)}
    {x : Address} (honly : ∀ op ∈ ops, ∀ t a, op = .access t a → a.address = x)
    (hkeep : ∀ op ∈ ops, op ≠ .forget x) : (d.run ops).totalRaces = (d.run ops).raceCount x := by
  have hplaced (ops : List (Op Handle)) : (d.run ops).Placed := (placed_create h).run ops
  induction ops using List.reverseRecOn with
  | nil =>
    obtain ⟨-, rfl⟩ := create_eq_ok h
    simp [run, raceCount, races?, entryAt?]
  | append_singleton ops op ih =>
    have hmem : op ∈ ops ++ [op] := List.mem_append_right _ (List.mem_singleton_self op)
    have ih := ih (fun op' h' => honly op' (List.mem_append_left _ h'))
      fun op' h' => hkeep op' (List.mem_append_left _ h')
    rw [run_concat]
    obtain ⟨t, a, rfl⟩ | hne := op.access_or_ne
    · obtain rfl := honly _ hmem t a rfl
      have htotal := (hplaced ops).totalRaces_access t a
      omega
    · rw [totalRaces_step_of_ne_access _ hne, raceCount_eq, entryOf_step _ hne,
        if_neg (hkeep op hmem), ← raceCount_eq, ih]

end Detector

end RaceWatch
