import RaceWatch.Proofs.Lockstep
import RaceWatch.Proofs.Omission
import RaceWatch.Proofs.Ticks

/-!
What a record depends on. The record of a location is determined by the operations that
order the threads and by the accesses to the location itself since it was last forgotten.
All other accesses can be left out of a run. Under the epoch rule they change neither
threads nor locks. Under the precise rule each of them takes its thread into a new event, so
that all times are different without it, but the order that the times stand for is the same.
-/

namespace RaceWatch

/-- The operations of a run without those accesses that have no part in the record of a
location: the accesses to other locations, and those after which the location is forgotten. -/
def trim {ρ : Type} [DecidableEq ρ] (x : Address) : List (Op ρ) → List (Op ρ)
  | [] => []
  | .access t a :: rest =>
      if a.address = x ∧ .forget x ∉ rest then .access t a :: trim x rest else trim x rest
  | op :: rest => op :: trim x rest

namespace Detector

variable {rule : Rule} {K : Nat} {d d' : Detector rule K} {config : Config} {tag : Nat}
  {op : Op Handle} {t : Handle} {a : Access} {x : Address} {ops ops' : List (Op Handle)}

/-! ### A detector that lags behind -/

/-- The one detector has the same roster as the other, and none of its threads is in a later
event. -/
structure Trails (d' d : Detector rule K) : Prop where
  roster_eq : d'.roster = d.roster
  own_le : ∀ t, d'.knowledge.own t ≤ d.knowledge.own t

/-- Without an access a detector lags behind. -/
theorem Sound.trails_access (hd : d.Sound)
    (hh : d.Handled (.access t a) (d.step (.access t a)).state (d.step (.access t a)).result) :
    d.Trails (d.step (.access t a)).state where
  roster_eq := by
    cases hh with
    | refused _ _ hroster | done _ _ _ hroster | overflowed _ _ _ _ hroster => exact hroster.symm
  own_le u := by
    rw [hd.own_step]
    exact Nat.le_add_right _ _

/-- An operation that succeeds in both detectors takes the same thread into a new event. -/
theorem Trails.ticker?_eq (ht : d'.Trails d) (hd : d.Sound) (hd' : d'.Sound) {v v' : Value}
    (hrefusal : d.roster.refusal? K op = none) (hv : (d.step op).result = .ok v)
    (hv' : (d'.step op).result = .ok v') :
    (⟨op, .ok v'⟩ : Event).ticker? rule = (⟨op, .ok v⟩ : Event).ticker? rule := by
  by_cases hstart : op = .start
  · subst hstart
    have hresult := hd.result_start hrefusal
    rw [← ht.roster_eq] at hrefusal hresult
    rw [Except.ok.inj (hv.symm.trans hresult),
      Except.ok.inj (hv'.symm.trans (hd'.result_start hrefusal))]
  · rw [Event.ticker?_eq_ticked? hstart, Event.ticker?_eq_ticked? hstart]
    rfl

/-- An operation that does not run out of clock values goes the same way in a detector that
lags behind. -/
theorem Trails.step (ht : d'.Trails d) (hd : d.Sound) (hd' : d'.Sound)
    (hh : d.Handled op (d.step op).state (d.step op).result)
    (hh' : d'.Handled op (d'.step op).state (d'.step op).result)
    (ho : (⟨op, (d.step op).result⟩ : Event).overflowed = false) :
    (⟨op, (d'.step op).result⟩ : Event).overflowed = false ∧
      (⟨op, (d'.step op).result⟩ : Event).outline = (⟨op, (d.step op).result⟩ : Event).outline ∧
      (d'.step op).state.Trails (d.step op).state := by
  have hown := hd.own_step op
  have hown' := hd'.own_step op
  cases hh with
  | refused hrefusal hresult hroster =>
    cases hh' with
    | refused hrefusal' hresult' hroster' =>
      rw [ht.roster_eq] at hrefusal'
      obtain rfl := Option.some.inj (hrefusal.symm.trans hrefusal')
      have hsame : (d'.step op).result = (d.step op).result := hresult'.trans hresult.symm
      refine ⟨by rw [hsame, ho], by rw [hsame], ⟨?_, fun u => ?_⟩⟩
      · rw [hroster', hroster, ht.roster_eq]
      · rw [hown, hown', hsame]
        exact Nat.add_le_add_right (ht.own_le u) _
    | done hrefusal' | overflowed hrefusal' => simp [← ht.roster_eq, hrefusal'] at hrefusal
  | done hrefusal hroom hresult hroster =>
    cases hh' with
    | refused hrefusal' => simp [ht.roster_eq, hrefusal] at hrefusal'
    | overflowed _ hticks hfull =>
      have hlt := hroom _ hticks
      exact absurd (hfull.trans (ht.own_le _)) (Nat.not_le_of_lt hlt)
    | done _ _ hresult' hroster' =>
      have hticker := ht.ticker?_eq hd hd' hrefusal hresult hresult'
      refine ⟨by rw [hresult']; rfl, by rw [hresult, hresult']; rfl, ⟨?_, fun u => ?_⟩⟩
      · rw [hroster', hroster, ht.roster_eq]
      · rw [hown, hown', hresult, hresult', hticker]
        exact Nat.add_le_add_right (ht.own_le u) _
  | overflowed _ _ _ hresult => simp [hresult, Event.overflowed] at ho

/-- A location that is forgotten in the rest of a run is forgotten at a position there. -/
theorem exists_forget (d : Detector rule K) {rest : List (Op Handle)} (hmem : .forget x ∈ rest) :
    ∃ q e, ops.length ≤ q ∧ q < (ops ++ rest).length ∧
      (d.chronicle (ops ++ rest))[q]? = some e ∧ e.op = .forget x := by
  obtain ⟨k, hk⟩ := List.mem_iff_getElem?.mp hmem
  obtain ⟨hlt, -⟩ := List.getElem?_eq_some_iff.mp hk
  have hget : (ops ++ rest)[ops.length + k]? = some (.forget x) := by
    rw [List.getElem?_append_right (Nat.le_add_right _ _), Nat.add_sub_cancel_left, hk]
  have hevent := d.getElem?_chronicle (ops ++ rest) (ops.length + k)
  rw [hget, Option.map_some] at hevent
  have hq : ops.length + k < (ops ++ rest).length := by
    rw [List.length_append]
    omega
  exact ⟨_, _, Nat.le_add_right _ _, hq, hevent, rfl⟩

section Run

variable (h : create rule K config tag = .ok d)
include h

theorem Trails.run (ht : (d.run ops').Trails (d.run ops)) (rest : List (Op Handle))
    (ho : ((d.run ops).chronicle rest).NoOverflow) :
    ((d.run ops').chronicle rest).NoOverflow ∧
      ((d.run ops').chronicle rest).Alike ((d.run ops).chronicle rest) := by
  induction rest generalizing ops ops' with
  | nil => exact ⟨ho, rfl⟩
  | cons op rest ih =>
    rw [chronicle, ← run_concat] at ho ⊢
    rw [chronicle, ← run_concat]
    obtain ⟨ho, hrest⟩ := List.forall_mem_cons.mp ho
    obtain ⟨ho', hout, ht'⟩ := ht.step (sound_run h ops) (sound_run h ops') (handled_run h ops op)
      (handled_run h ops' op) ho
    rw [← run_concat, ← run_concat] at ht'
    obtain ⟨hno, halike⟩ := ih ht' hrest
    refine ⟨List.forall_mem_cons.mpr ⟨ho', hno⟩, ?_⟩
    rw [Chronicle.Alike, List.map_cons, List.map_cons, hout, halike]

/-- If an access is left out of a run in which nothing overflows, nothing overflows either,
and its event is the only one that is missing. -/
theorem omits_chronicle (rest : List (Op Handle))
    (ho : (d.chronicle (ops ++ .access t a :: rest)).NoOverflow) :
    (d.chronicle (ops ++ rest)).NoOverflow ∧
      (d.chronicle (ops ++ .access t a :: rest)).Omits (d.chronicle (ops ++ rest)) ops.length t
        a := by
  have hsplit : d.chronicle (ops ++ .access t a :: rest) = d.chronicle ops ++
      ⟨.access t a, ((d.run ops).step (.access t a)).result⟩ ::
        (d.run (ops ++ [.access t a])).chronicle rest := by
    rw [chronicle_append, run_concat]
    rfl
  have ht := (sound_run h ops).trails_access (handled_run h ops (.access t a))
  rw [← run_concat] at ht
  rw [hsplit] at ho ⊢
  rw [chronicle_append, ← d.length_chronicle ops]
  obtain ⟨hbefore, ho⟩ := List.forall_mem_append.mp ho
  obtain ⟨hno, halike⟩ := ht.run h rest (List.forall_mem_cons.mp ho).2
  exact ⟨List.forall_mem_append.mpr ⟨hbefore, hno⟩, .of_append rfl halike⟩

end Run

/-! ### The precise rule -/

/-- The order between the visits is the same without the access, and so are the races between
adjacent ones. -/
theorem precise_races_of_omitted {d : Detector .precise K}
    (h : create .precise K config tag = .ok d) (rest : List (Op Handle))
    (ho : (d.chronicle (ops ++ .access t a :: rest)).NoOverflow)
    (hx : a.address ≠ x ∨ .forget x ∈ rest) :
    ((d.run (ops ++ rest)).entryOf x).races =
      ((d.run (ops ++ .access t a :: rest)).entryOf x).races := by
  obtain ⟨ho', homits⟩ := omits_chronicle h rest ho
  have hleaves := leaves_entryOf h (ops ++ .access t a :: rest) x
    (ops ++ .access t a :: rest).length
  have hleaves' := leaves_entryOf h (ops ++ rest) x (ops ++ rest).length
  rw [after_length] at hleaves hleaves'
  have hlength : (ops ++ .access t a :: rest).length = (ops ++ rest).length + 1 := by
    simp only [List.length_append, List.length_cons, Nat.add_assoc]
  have hle : ops.length ≤ (ops ++ rest).length := by
    rw [List.length_append]
    exact Nat.le_add_right _ _
  have hvisits := homits.visits_eq hle (hx.imp_right d.exists_forget)
  rw [hleaves.races_eq_reportAll (legal_chronicle h _) ho, hlength, hvisits,
    homits.adjacentRaces_map_shift, hleaves'.races_eq_reportAll (legal_chronicle h _) ho']

/-! ### The epoch rule -/

/-- Two detectors with the same threads, locks and options. -/
structure Twin (d d' : Detector rule K) : Prop where
  registry_eq : d'.registry = d.registry
  locks_eq : d'.locks = d.locks
  config_eq : d'.config = d.config

/-- Under the epoch rule an access changes neither threads nor locks. -/
theorem Sound.twin_access {d : Detector .epoch K} (hd : d.Sound) (t : Handle) (a : Access) :
    (d.step (.access t a)).state.Twin d := by
  have hconfig := config_step d (.access t a)
  rcases d.access_cases t a with ⟨-, hspares⟩ | ⟨-, s, checked, hpass⟩
  · exact ⟨hspares.registry_eq.symm, hspares.locks_eq.symm, hconfig.symm⟩
  · obtain ⟨f, hf, hthread, -⟩ := Entry.check_eq_ok hpass.check_eq
    have hsame : f.thread = s := EpochHistory.thread_check hf
    have hid := (hd.threads _ s hpass.state?_eq).id_eq
    refine ⟨?_, hpass.locks_eq.symm, hconfig.symm⟩
    rw [hpass.registry_eq, hthread, hsame, Registry.put_self hpass.state?_eq hid]

theorem Twin.trans {d₁ d₂ d₃ : Detector rule K} (h : d₁.Twin d₂) (h' : d₂.Twin d₃) :
    d₁.Twin d₃ :=
  ⟨h'.registry_eq.trans h.registry_eq, h'.locks_eq.trans h.locks_eq,
    h'.config_eq.trans h.config_eq⟩

theorem Twin.symm (h : d.Twin d') : d'.Twin d :=
  ⟨h.registry_eq.symm, h.locks_eq.symm, h.config_eq.symm⟩

theorem Twin.step {d d' : Detector .epoch K} (h : d.Twin d') (hd : d.Sound) (hd' : d'.Sound)
    (op : Op Handle) : (d.step op).state.Twin (d'.step op).state := by
  obtain ⟨t, a, rfl⟩ | hne := op.access_or_ne
  · exact ((hd.twin_access t a).trans h).trans (hd'.twin_access t a).symm
  · have hbeside : Beside d.registry.tag d d' := ⟨h.registry_eq, h.locks_eq⟩
    obtain ⟨hregistry, hlocks⟩ := (hbeside.step rfl hne).1
    refine ⟨?_, hlocks, ?_⟩
    · rw [hregistry, ← tag_step d op]
      rfl
    · rw [config_step, config_step, h.config_eq]

/-- What an access leaves of its location depends on the threads and the location alone. -/
theorem Twin.entryOf_access (h : d.Twin d')
    (hentry : d'.entryOf a.address = d.entryOf a.address) (t : Handle) :
    (d'.step (.access t a)).state.entryOf a.address =
      (d.step (.access t a)).state.entryOf a.address := by
  rw [Detector.entryOf_access, Detector.entryOf_access, h.registry_eq, h.config_eq, hentry]

theorem Twin.entryOf_step (h : d.Twin d') (hentry : d'.entryOf x = d.entryOf x) (op : Op Handle) :
    (d'.step op).state.entryOf x = (d.step op).state.entryOf x := by
  obtain ⟨t, a, rfl⟩ | hne := op.access_or_ne
  · by_cases hx : x = a.address
    · subst hx
      exact h.entryOf_access hentry t
    · rw [entryOf_access_of_ne d t hx, entryOf_access_of_ne d' t hx, hentry]
  · rw [Detector.entryOf_step d hne, Detector.entryOf_step d' hne, hentry]

/-- The entry of a location is the same after the rest of a run, if it is the same before or
the location is still to be forgotten. -/
theorem Twin.entryOf_run {d d' : Detector .epoch K} (h : d.Twin d') (hd : d.Sound)
    (hd' : d'.Sound) {rest : List (Op Handle)}
    (hx : d'.entryOf x = d.entryOf x ∨ .forget x ∈ rest) :
    (d'.run rest).entryOf x = (d.run rest).entryOf x := by
  induction rest generalizing d d' with
  | nil => exact hx.resolve_right List.not_mem_nil
  | cons op rest ih =>
    have hstep := h.step hd hd' op
    have hsound := (hd.follows_step op).sound hd
    have hsound' := (hd'.follows_step op).sound hd'
    refine ih hstep hsound hsound' ?_
    rcases hx with hx | hx
    · exact .inl (h.entryOf_step hx op)
    · rcases List.mem_cons.mp hx with rfl | hx
      · left
        rw [Detector.entryOf_step d (by simp), Detector.entryOf_step d' (by simp), if_pos rfl,
          if_pos rfl]
      · exact .inr hx

theorem epoch_races_of_omitted {d : Detector .epoch K} (h : create .epoch K config tag = .ok d)
    (rest : List (Op Handle)) (hx : a.address ≠ x ∨ .forget x ∈ rest) :
    ((d.run (ops ++ rest)).entryOf x).races =
      ((d.run (ops ++ .access t a :: rest)).entryOf x).races := by
  have hd := sound_run h ops
  have hd' := (hd.follows_step (.access t a)).sound hd
  have htwin := hd.twin_access t a
  have hentry : (d.run ops).entryOf x = ((d.run ops).step (.access t a)).state.entryOf x ∨
      .forget x ∈ rest :=
    hx.imp_left fun hne => (entryOf_access_of_ne _ t (Ne.symm hne)).symm
  rw [run_append, run_append, htwin.entryOf_run hd' hd hentry]
  rfl

/-! ### Leaving out all of them -/

/-- One access that has no part in the record of a location can be left out. -/
theorem races_of_omitted (h : create rule K config tag = .ok d) (rest : List (Op Handle))
    (ho : (d.chronicle (ops ++ .access t a :: rest)).NoOverflow)
    (hx : a.address ≠ x ∨ .forget x ∈ rest) :
    (d.chronicle (ops ++ rest)).NoOverflow ∧
      ((d.run (ops ++ rest)).entryOf x).races =
        ((d.run (ops ++ .access t a :: rest)).entryOf x).races := by
  refine ⟨(omits_chronicle h rest ho).1, ?_⟩
  cases rule with
  | epoch => exact epoch_races_of_omitted h rest hx
  | precise => exact precise_races_of_omitted h rest ho hx

/-- The operations before are those that have been looked at and have stayed. -/
theorem races_trim (h : create rule K config tag = .ok d) (x : Address)
    (before rest : List (Op Handle)) (ho : (d.chronicle (before ++ rest)).NoOverflow) :
    ((d.run (before ++ trim x rest)).entryOf x).races =
      ((d.run (before ++ rest)).entryOf x).races := by
  fun_induction trim x rest generalizing before with
  | case1 => rfl
  | case2 t a rest _ ih =>
    rw [List.append_cons] at ho ⊢
    rw [List.append_cons before _ rest]
    exact ih _ ho
  | case3 t a rest hdrop ih =>
    have hx : a.address ≠ x ∨ .forget x ∈ rest := (not_and_or.mp hdrop).imp_right not_not.mp
    obtain ⟨hno, hraces⟩ := races_of_omitted h rest ho hx
    rw [ih before hno, hraces]
  | case4 op rest _ ih =>
    rw [List.append_cons] at ho ⊢
    rw [List.append_cons before _ rest]
    exact ih _ ho

/-- The record of a location depends on the synchronization and on the accesses to the
location alone. In a run in which nothing overflows, all accesses to other locations can be
left out, and so can the accesses to the location that come before it is forgotten for the
last time. At the end the same races are counted and kept there, where a location that is
not monitored has the empty record. -/
theorem record_trim (h : create rule K config tag = .ok d) (ops : List (Op Handle))
    (ho : (d.chronicle ops).NoOverflow) (x : Address) :
    ((d.run (trim x ops)).races? x).getD .empty = ((d.run ops).races? x).getD .empty := by
  rw [races?_getD, races?_getD]
  exact races_trim h x [] ops ho

/-- Two threads write to one location before and after it is forgotten, and to another one in
between. -/
def scattered : List (Op Handle) :=
  [.start, .start, .access ⟨0, 1⟩ ⟨7, .write⟩, .access ⟨0, 2⟩ ⟨8, .write⟩, .forget 7,
    .access ⟨0, 1⟩ ⟨8, .read⟩, .access ⟨0, 1⟩ ⟨7, .write⟩, .access ⟨0, 2⟩ ⟨7, .write⟩]

theorem record_trim_scattered :
    trim 7 scattered = [.start, .start, .forget 7, .access ⟨0, 1⟩ ⟨7, .write⟩,
      .access ⟨0, 2⟩ ⟨7, .write⟩] ∧
    ((forThree .precise).chronicle scattered).NoOverflow ∧
    (((forThree .precise).run (trim 7 scattered)).races? 7).getD .empty =
      ⟨1, [⟨.writeWrite, 7, 2, 1⟩]⟩ := by
  have ho : ((forThree .precise).chronicle scattered).NoOverflow := by decide
  have hrecord := record_trim (create_forThree .precise) scattered ho 7
  exact ⟨by decide, ho, hrecord.trans (by decide)⟩

end Detector

end RaceWatch
