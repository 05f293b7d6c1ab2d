import RaceWatch.Proofs.Admission
import RaceWatch.Proofs.Flagged

/-!
Accesses that nothing orders. Where no access to a location happens before one of another
thread, the accesses alone tell whether it is flagged. The epoch rule sees any two of them
that conflict. The precise rule compares each with the one before, so that reads in between
hide a conflict. A run is of that kind if its threads only come to be and access locations.
-/

namespace RaceWatch

/-- Whether two accesses are made by different threads and one of them is a write. -/
def Clashing (w v : Nat × AccessKind) : Prop := w.1 ≠ v.1 ∧ (w.2 = .write ∨ v.2 = .write)

instance (w v : Nat × AccessKind) : Decidable (Clashing w v) := inferInstanceAs (Decidable (_ ∧ _))

namespace Chronicle

theorem conflict_iff_clashing {w v : Visit} : Conflict w v ↔ Clashing w.touch v.touch := Iff.rfl

theorem exists_infix_of_touch {visits : List Visit} {w' v' : Nat × AccessKind}
    (h : [w', v'] <:+: visits.map Visit.touch) :
    ∃ w v, [w, v] <:+: visits ∧ w.touch = w' ∧ v.touch = v' := by
  obtain ⟨l, hl, heq⟩ := List.infix_map_iff.mp h
  match l, heq with
  | [w, v], heq =>
    simp only [List.map_cons, List.map_nil, List.cons.injEq, and_true] at heq
    exact ⟨w, v, hl, heq.1.symm, heq.2.symm⟩

end Chronicle

/-- What is flagged where accesses of different threads to a location are not ordered. -/
theorem Detector.raceCount_pos_iff_of_unordered {rule : Rule} {K : Nat} {d : Detector rule K}
    {config : Config} {tag : Nat} {ops : List (Op Handle)} {x : Address}
    (h : create rule K config tag = .ok d) (ho : (d.chronicle ops).NoOverflow)
    (hs : ∀ e ∈ d.chronicle ops, ∀ t a, e.op = .access t a → e.succeeded = true)
    (hkeep : ∀ e ∈ d.chronicle ops, e.op ≠ .forget x)
    (hunordered : ∀ w v, (d.chronicle ops).Made x w → (d.chronicle ops).Made x v →
      w.thread ≠ v.thread → ¬ (d.chronicle ops).HappensBefore w.position v.position) :
    (rule = .epoch → (0 < (d.run ops).raceCount x ↔
        ∃ w ∈ accesses x ops, ∃ v ∈ accesses x ops, Clashing w v)) ∧
      (rule = .precise → (0 < (d.run ops).raceCount x ↔
        ∃ w v, [w, v] <:+: accesses x ops ∧ Clashing w v)) := by
  have hvisits : ((d.chronicle ops).visits x ops.length).map Visit.touch = accesses x ops := by
    rw [Chronicle.map_touch_visits hs hkeep, List.take_of_length_le (length_chronicle d ops).le,
      map_op_chronicle]
  have hnot {w v : Visit} (hw : w ∈ (d.chronicle ops).visits x ops.length)
      (hv : v ∈ (d.chronicle ops).visits x ops.length) (hclash : Clashing w.touch v.touch) :=
    hunordered w v (Chronicle.made_of_mem hw) (Chronicle.made_of_mem hv) hclash.1
  rw [← after_length, ← hvisits]
  constructor
  · rintro rfl
    constructor
    · intro hpos
      obtain ⟨w, hw, v, hv, hconflict, -, -⟩ := racy_of_raceCount_pos h ops hpos
      exact ⟨_, List.mem_map_of_mem hw, _, List.mem_map_of_mem hv,
        Chronicle.conflict_iff_clashing.mp hconflict⟩
    · rintro ⟨w', hw', v', hv', hclash⟩
      obtain ⟨w, hw, rfl⟩ := List.mem_map.mp hw'
      obtain ⟨v, hv, rfl⟩ := List.mem_map.mp hv'
      have hconflict := Chronicle.conflict_iff_clashing.mpr hclash
      exact raceCount_pos_of_racy h ops ho
        ⟨w, hw, v, hv, hconflict, hnot hw hv hclash, hnot hv hw hconflict.symm⟩
  · rintro rfl
    rw [raceCount_pos_iff_adjacent h ops ho]
    constructor
    · rintro ⟨w, v, hwv, hconflict, -⟩
      exact ⟨w.touch, v.touch, hwv.map Visit.touch, Chronicle.conflict_iff_clashing.mp hconflict⟩
    · rintro ⟨w', v', hwv', hclash⟩
      obtain ⟨w, v, hwv, rfl, rfl⟩ := Chronicle.exists_infix_of_touch hwv'
      exact ⟨w, v, hwv, Chronicle.conflict_iff_clashing.mpr hclash,
        hnot (hwv.subset (by simp)) (hwv.subset (by simp)) hclash⟩

/-! ### Runs without synchronization -/

/-- The start of a thread, or an access that succeeds. -/
def Event.plain (e : Event) : Bool :=
  match e.op with
  | .start => true
  | .access .. => e.succeeded
  | _ => false

theorem Event.plain_cases {e : Event} (h : e.plain = true) :
    e.op = .start ∨ (∃ t a, e.op = .access t a) ∧ e.succeeded = true := by
  cases hop : e.op with
  | start => exact .inl rfl
  | access t a => exact .inr ⟨⟨t, a, rfl⟩, by simpa [plain, hop] using h⟩
  | fork | join | exit | acquire | release | forgetLock | init | forget => simp [plain, hop] at h

namespace Chronicle

variable {H : Chronicle} {i j n : Nat} {x : Address}

/-- Whether a run consists only of starts of threads and of accesses that succeed. -/
def Unsynchronized (H : Chronicle) : Prop := ∀ e ∈ H, e.plain = true

instance (H : Chronicle) : Decidable H.Unsynchronized := List.decidableBAll _ _

/-- Without synchronization a link only leads from one operation of a thread to another. -/
theorem Unsynchronized.actor?_of_link (h : H.Unsynchronized) {e : Event} {t : Nat}
    (hlink : H.Link i j) (hi : H.At i e) (he : e.actor? = some t) :
    ∃ f, H.At j f ∧ f.actor? = some t := by
  obtain ⟨-, e', f, hi', hj, hcases⟩ := hlink.cases
  obtain rfl := hi.unique hi'
  have hplain := Event.plain_cases (h e (List.mem_of_getElem? hi.1))
  have hplain' := Event.plain_cases (h f (List.mem_of_getElem? hj.1))
  refine ⟨f, hj, ?_⟩
  rcases hcases with ⟨u, htells, hasks⟩ | ⟨lock, t, u, hop, -⟩
  · have hactor : e.actor? = some u := htells.resolve_right ?_
    have hactor' : f.actor? = some u := hasks.resolve_right ?_
    · exact hactor'.trans (hactor.symm.trans he)
    · rintro ⟨p, c, hop, -⟩
      simp [hop] at hplain'
    · rintro ⟨p, c, hop, -⟩
      simp [hop] at hplain
  · simp [hop] at hplain

theorem Unsynchronized.not_happensBefore (h : H.Unsynchronized) {w v : Visit}
    (hw : H.Made x w) (hv : H.Made x v) (hne : w.thread ≠ v.thread) :
    ¬ H.HappensBefore w.position v.position := by
  intro hb
  obtain ⟨e, he, hact⟩ := hw.exists_at
  obtain ⟨f, hf, hact'⟩ := hv.exists_at
  obtain ⟨g, hg, hact''⟩ := hb.passes (fun _ _ _ => h.actor?_of_link) he hact
  obtain rfl := hf.unique hg
  exact hne (Option.some.inj (hact''.symm.trans hact'))

theorem Unsynchronized.succeeded_of_access (h : H.Unsynchronized) {e : Event} (he : e ∈ H)
    {t : Handle} {a : Access} (hop : e.op = .access t a) : e.succeeded = true := by
  rcases Event.plain_cases (h e he) with hstart | ⟨-, hs⟩
  · simp [hop] at hstart
  · exact hs

theorem Unsynchronized.ne_forget (h : H.Unsynchronized) {e : Event} (he : e ∈ H) :
    e.op ≠ .forget x := by
  intro hop
  rcases Event.plain_cases (h e he) with hstart | ⟨⟨t, a, haccess⟩, -⟩
  · simp [hop] at hstart
  · simp [hop] at haccess

end Chronicle

namespace Detector

variable {rule : Rule} {K : Nat} {d : Detector rule K} {config : Config} {tag : Nat}
  {ops : List (Op Handle)}

/-- The start of a thread does not fail for want of clock values. -/
theorem noOverflow_of_unsynchronized (h : create rule K config tag = .ok d)
    (hu : (d.chronicle ops).Unsynchronized) : (d.chronicle ops).NoOverflow := by
  intro e he
  obtain ⟨n, hn⟩ := List.getElem?_of_mem he
  rcases Event.plain_cases (hu e he) with hop | ⟨-, hs⟩
  · have hhandled := handled_after h ops n e.op
    rw [← (step_of_getElem? hn).1] at hhandled
    exact hhandled.not_overflowed (by rw [hop]; rfl)
  · exact Event.not_overflowed_of_succeeded hs

/-- Which locations are flagged in a run without synchronization. The epoch rule flags a
location exactly if any two accesses to it are made by different threads and one of them
is a write. The precise rule flags it exactly if this holds of two accesses of which one
follows directly on the other. -/
theorem raceCount_pos_iff_clashing (h : create rule K config tag = .ok d)
    (hu : (d.chronicle ops).Unsynchronized) (x : Address) :
    (rule = .epoch → (0 < (d.run ops).raceCount x ↔
        ∃ w ∈ accesses x ops, ∃ v ∈ accesses x ops, Clashing w v)) ∧
      (rule = .precise → (0 < (d.run ops).raceCount x ↔
        ∃ w v, [w, v] <:+: accesses x ops ∧ Clashing w v)) :=
  raceCount_pos_iff_of_unordered h (noOverflow_of_unsynchronized h hu)
    (fun _ he _ _ => hu.succeeded_of_access he) (fun _ he => hu.ne_forget he)
    fun _ _ => hu.not_happensBefore

theorem clash_flagged : 0 < ((forThree .epoch).run clash).raceCount 7 ∧
    0 < ((forThree .precise).run clash).raceCount 7 := by
  have hu (rule : Rule) : ((forThree rule).chronicle clash).Unsynchronized := by
    cases rule <;> decide
  constructor
  · refine ((raceCount_pos_iff_clashing (create_forThree .epoch) (hu .epoch) 7).1 rfl).mpr ?_
    exact ⟨(1, .write), by decide, (2, .write), by decide, by decide⟩
  · refine ((raceCount_pos_iff_clashing (create_forThree .precise) (hu .precise) 7).2 rfl).mpr ?_
    exact ⟨(1, .write), (2, .write), ⟨[], [], rfl⟩, by decide⟩

/-- Two threads write to one location, and in between both of them read it. -/
def masked : List (Op Handle) :=
  [.start, .start, .access ⟨0, 1⟩ ⟨7, .write⟩, .access ⟨0, 1⟩ ⟨7, .read⟩,
    .access ⟨0, 2⟩ ⟨7, .read⟩, .access ⟨0, 2⟩ ⟨7, .write⟩]

/-- Two writes without synchronization need not be flagged by the precise rule. -/
theorem masked_not_flagged : ∃ d : Detector .precise 3, create .precise 3 .default 0 = .ok d ∧
    (d.chronicle masked).Unsynchronized ∧ (1, .write) ∈ accesses 7 masked ∧
    (2, .write) ∈ accesses 7 masked ∧ (d.run masked).raceCount 7 = 0 :=
  ⟨forThree .precise, create_forThree .precise, by decide, by decide, by decide, by decide⟩

end Detector

end RaceWatch
