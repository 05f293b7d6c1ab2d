import RaceWatch.Proofs.Rerun

/-!
No thread is special. A run that starts all its threads first may be told with the threads
permuted. The detector then hands back the same, keeps the same and reports the same, all of it
under the other names. Only the reads that one write races with may come in another order.
-/

namespace RaceWatch

open VectorClock

/-! ### Permuted runs -/

/-- The renaming that permutes the first threads among each other and leaves the others alone. -/
def Renaming.ofPerm {n K : Nat} (hn : n ≤ K) (p : Equiv.Perm (Set.Icc 1 n)) : Renaming K K where
  perm := Equiv.Perm.ofSubtype p
  perm_noThread := Equiv.Perm.ofSubtype_apply_of_not_mem p (by simp [noThread])
  perm_le t ht := by
    by_cases hmem : t ∈ Set.Icc 1 n
    · rw [Equiv.Perm.ofSubtype_apply_of_mem p hmem]
      exact (p ⟨t, hmem⟩).2.2.trans hn
    · rwa [Equiv.Perm.ofSubtype_apply_of_not_mem p hmem]

theorem Renaming.ofPerm_le_iff {n K : Nat} (hn : n ≤ K) (p : Equiv.Perm (Set.Icc 1 n)) (t : Nat) :
    Renaming.ofPerm hn p t ≤ n ↔ t ≤ n := by
  change Equiv.Perm.ofSubtype p t ≤ n ↔ t ≤ n
  by_cases hmem : t ∈ Set.Icc 1 n
  · rw [Equiv.Perm.ofSubtype_apply_of_mem p hmem]
    exact iff_of_true (p ⟨t, hmem⟩).2.2 hmem.2
  · rw [Equiv.Perm.ofSubtype_apply_of_not_mem p hmem]

def Handle.rename (p : Nat → Nat) (h : Handle) : Handle := ⟨h.owner, p h.thread⟩

/-- The same operation of other threads. -/
def Op.rename (p : Nat → Nat) (op : Op Handle) : Op Handle := op.map (·.rename p)

def RaceEvent.rename (p : Nat → Nat) (e : RaceEvent) : RaceEvent :=
  ⟨e.kind, e.address, p e.thread, p e.priorThread⟩

/-- The reports of one operation under other names. The reads that a write races with come last
and may come in another order. -/
def EventsRenamed (p : Nat → Nat) (events events' : List RaceEvent) : Prop :=
  ∃ head reads reads', events = head ++ reads ∧ events' = head.map (RaceEvent.rename p) ++ reads' ∧
    reads'.Perm (reads.map (RaceEvent.rename p)) ∧ ∀ e ∈ reads, e.kind = .readWrite

theorem eventsRenamed_nil (p : Nat → Nat) : EventsRenamed p [] [] :=
  ⟨[], [], [], rfl, rfl, .rfl, by simp⟩

theorem EventsRenamed.length_eq {p : Nat → Nat} {events events' : List RaceEvent}
    (h : EventsRenamed p events events') : events'.length = events.length := by
  obtain ⟨head, reads, reads', rfl, rfl, hperm, -⟩ := h
  rw [List.length_append, List.length_append, hperm.length_eq, List.length_map, List.length_map]

theorem EventsRenamed.length_flatten_eq {p : Nat → Nat} {reports reports' : List (List RaceEvent)}
    (h : List.Forall₂ (EventsRenamed p) reports reports') :
    reports'.flatten.length = reports.flatten.length := by
  induction h with
  | nil => rfl
  | cons hevents _ ih =>
    rw [List.flatten_cons, List.flatten_cons, List.length_append, List.length_append,
      hevents.length_eq, ih]

theorem Rule.FindingRenamed.events {rule : Rule} {K K' : Nat} {p : Renaming K K'}
    {f : Finding (rule.History K) K} {f' : Finding (rule.History K') K'}
    (h : rule.FindingRenamed p f f') (x : Address) :
    EventsRenamed p (Entry.eventsOf f x) (Entry.eventsOf f' x) := by
  obtain ⟨head, reads, reads', hraces, hraces', hperm, hkind, -⟩ := h.races
  refine ⟨head.map fun race => ⟨race.1, x, f.thread.id, race.2⟩,
    reads.map fun race => ⟨race.1, x, f.thread.id, race.2⟩,
    reads'.map fun race => ⟨race.1, x, f'.thread.id, race.2⟩, ?_, ?_, ?_, ?_⟩
  · rw [Entry.eventsOf, hraces, List.map_append]
  · rw [Entry.eventsOf, hraces', List.map_append, List.map_map, List.map_map, h.thread.id_eq]
    rfl
  · have hmap := hperm.map fun race => (⟨race.1, x, f'.thread.id, race.2⟩ : RaceEvent)
    rw [List.map_map, h.thread.id_eq] at hmap
    rwa [List.map_map, h.thread.id_eq]
  · intro e he
    obtain ⟨race, hmem, rfl⟩ := List.mem_map.mp he
    exact hkind race hmem

namespace Detector

variable {rule : Rule} {K : Nat} {d d' : Detector rule K} {config : Config} {tag n m : Nat}
  {p : Renaming K K}

/-- One detector keeps what the other one does, under other names of the threads. -/
structure Permuted (p : Renaming K K) (d d' : Detector rule K) : Prop where
  threads : ∀ t s s', d.state? t = some s → d'.state? (p t) = some s' → s.Renamed p s'
  locks : ∀ lock, Option.Rel (VectorClock.Renamed p) (d.lockClock? lock) (d'.lockClock? lock)
  entries : ∀ x, Option.Rel (fun entry entry' => rule.Renamed p entry.history entry'.history)
    (d.entryAt? x) (d'.entryAt? x)
  raceCount_eq : ∀ x, d'.raceCount x = d.raceCount x
  totalRaces_eq : d'.totalRaces = d.totalRaces

theorem standsFor_rename (h : create rule K config tag = .ok d) (ops ops' : List (Op Handle))
    (p : Renaming K K) (op : Op Handle) (m : Nat) :
    op.StandsFor p (d.after ops m).registry.tag (d.after ops' m).registry.tag (op.rename p) := by
  rw [tag_after h, tag_after h, Op.StandsFor, Op.rename, Op.map_map]
  rfl

/-! ### The threads that come to be first -/

/-- What there is when some threads have come to be and have done nothing yet. -/
structure Fresh (m : Nat) (d : Detector rule K) : Prop where
  threads_eq : d.registry.threads = (List.range m).map fun i => .first (ownerOf i)
  lockClock?_eq : ∀ lock, d.lockClock? lock = none
  entryAt?_eq : ∀ x, d.entryAt? x = none

theorem Fresh.state?_eq (h : d.Fresh m) (t : Nat) :
    d.state? t = if t ≠ noThread ∧ t ≤ m then some (.first t) else none := by
  rw [state?, Registry.state?, h.threads_eq]
  by_cases h0 : t = noThread
  · simp [h0]
  · have hlt : coordinateOf t < m ↔ t ≤ m := by
      simp only [noThread] at h0
      simp only [coordinateOf]
      omega
    simp only [h0, if_false, List.getElem?_map, ne_eq, not_false_eq_true, true_and, ← hlt]
    by_cases hm : coordinateOf t < m
    · rw [List.getElem?_range hm, if_pos hm, Option.map_some, ownerOf_coordinateOf h0]
    · rw [List.getElem?_eq_none (by simpa using hm), if_neg hm, Option.map_none]

theorem fresh_of_create (h : create rule K config tag = .ok d) : d.Fresh 0 := by
  obtain ⟨-, rfl⟩ := create_eq_ok h
  exact ⟨rfl, fun _ => rfl, fun _ => rfl⟩

theorem Fresh.step (h : d.Fresh m) (hd : d.Sound) (hm : m < K) :
    (d.step .start).state.Fresh (m + 1) ∧ ∃ v, (d.step .start).result = .ok v := by
  have hsize : d.registry.size = m := by
    rw [Registry.size, h.threads_eq, List.length_map, List.length_range]
  have hrefusal : d.roster.refusal? K .start = none := by
    rw [hd.refusal?_start (by omega), if_neg (by rw [hsize, ownerOf]; omega)]
  refine ⟨?_, _, hd.result_start hrefusal⟩
  rw [hd.state_step_start hrefusal, hsize]
  refine ⟨?_, h.lockClock?_eq, h.entryAt?_eq⟩
  rw [Registry.add, h.threads_eq, List.range_succ, List.map_append]
  rfl

/-- Threads that have done nothing yet are all alike. -/
theorem Fresh.threads_renamed (h : d.Fresh m) (hd : d.Sound) (hm : m ≤ K) {t : Nat}
    {s s' : ThreadState K} (hs : d.state? t = some s) (hs' : d.state? (p t) = some s') :
    s.Renamed p s' := by
  rw [h.state?_eq] at hs hs'
  obtain ⟨⟨h0, hle⟩, hs⟩ := Option.ite_none_right_eq_some.mp hs
  obtain ⟨-, hs'⟩ := Option.ite_none_right_eq_some.mp hs'
  obtain rfl := Option.some.inj hs
  obtain rfl := Option.some.inj hs'
  exact ThreadState.renamed_first ⟨h0, hle.trans hm⟩ hd.capacity hd.capacity

theorem Fresh.renamed (h : d.Fresh n) (hd : d.Sound) (hn : n ≤ K)
    (hp : ∀ t, p t ≤ n ↔ t ≤ n) : d.Renamed p d where
  threads t := by
    change Option.Rel _ (d.state? t) (d.state? (p t))
    simp only [h.state?_eq, hp, ne_eq, p.apply_eq_noThread]
    split
    · next ht =>
      exact .some (ThreadState.renamed_first ⟨ht.1, ht.2.trans hn⟩ hd.capacity hd.capacity)
    · exact .none
  locks lock := by
    rw [h.lockClock?_eq]
    exact .none
  monitors _ := rfl
  histories x := by
    have hnone : d.shadow.get? x = none := h.entryAt?_eq x
    rw [entryOf, ShadowMemory.getD, hnone]
    exact rule.renamed_neutral p

/-! ### The run -/

section Run

variable {ops : List (Op Handle)}

theorem ne_start (hlater : .start ∉ ops.drop n) {op : Op Handle}
    (hop : ops[m]? = some op) (hm : n ≤ m) : op ≠ .start := by
  rintro rfl
  refine hlater (List.mem_of_getElem? (i := m - n) ?_)
  rw [List.getElem?_drop, Nat.add_sub_cancel' hm, hop]

variable (hstarts : ops.take n = List.replicate n .start)
include hstarts

theorem getElem?_of_starts (hm : m < n) : ops[m]? = some .start := by
  rw [← List.getElem?_take_of_lt hm, hstarts, List.getElem?_replicate, if_pos hm]

/-- The threads come to be in the same way in both runs. -/
theorem after_rename_of_starts (d : Detector rule K) (q : Nat → Nat) (hm : m ≤ n) :
    d.after (ops.map (Op.rename q)) m = d.after ops m := by
  have htake : ops.take m = List.replicate m .start := by
    rw [← Nat.min_eq_left hm, ← List.take_take, hstarts, List.take_replicate, Nat.min_eq_left hm]
  rw [after, after, ← List.map_take, htake, List.map_replicate]
  rfl

variable (h : create rule K config tag = .ok d) (hn : n ≤ K)
include h hn

theorem fresh_after (hm : m ≤ n) : (d.after ops m).Fresh m := by
  induction m with
  | zero => exact fresh_of_create h
  | succ m ih =>
    rw [after_succ d (getElem?_of_starts hstarts hm)]
    exact ((ih (Nat.le_of_succ_le hm)).step (sound_after h ops m) (hm.trans hn)).1

variable (hlater : .start ∉ ops.drop n) (hp : ∀ t, p t ≤ n ↔ t ≤ n)
include hlater hp

theorem twins_after (hm : n ≤ m) : Twins p (d.after ops m) (d.after (ops.map (Op.rename p)) m) := by
  induction m, hm using Nat.le_induction with
  | base =>
    -- Both runs are in one state by then, which is the same under all names.
    refine Renamed.twins h h ?_
    rw [after_rename_of_starts hstarts d p (Nat.le_refl n)]
    exact (fresh_after hstarts h hn (Nat.le_refl n)).renamed (sound_after h ops n) hn hp
  | succ m hm ih =>
    cases hop : ops[m]? with
    | none =>
      rw [after_succ_of_none d hop, after_succ_of_none d (by rw [List.getElem?_map, hop]; rfl)]
      exact ih
    | some op =>
      refine Renamed.twins h h ?_
      rw [after_succ d hop, after_succ d (by rw [List.getElem?_map, hop]; rfl)]
      exact (ih.step (standsFor_rename h ops _ p op m) (ne_start hlater hop hm)).1

section

variable {op : Op Handle} (hop : ops[m]? = some op)
include hop

/-- Each operation hands back the same in both runs. -/
theorem result_rename : ((d.after (ops.map (Op.rename p)) m).step (op.rename p)).result =
    renameResult p ((d.after ops m).step op).result := by
  rcases Nat.lt_or_ge m n with hm | hm
  · obtain rfl := Option.some.inj (hop.symm.trans (getElem?_of_starts hstarts hm))
    obtain ⟨-, v, hresult⟩ :=
      (fresh_after hstarts h hn hm.le).step (sound_after h ops m) (hm.trans_le hn)
    rw [after_rename_of_starts hstarts d p hm.le, Op.rename, Op.map, hresult]
    rfl
  · exact ((twins_after hstarts h hn hlater hp hm).step (standsFor_rename h ops _ p op m)
      (ne_start hlater hop hm)).2

/-- Each operation reports the same in both runs. -/
theorem reported_rename (x : Address) : EventsRenamed p ((d.after ops m).reported x op)
    ((d.after (ops.map (Op.rename p)) m).reported x (op.rename p)) := by
  rcases Nat.lt_or_ge m n with hm | hm
  · obtain rfl := Option.some.inj (hop.symm.trans (getElem?_of_starts hstarts hm))
    exact eventsRenamed_nil p
  · rcases (twins_after hstarts h hn hlater hp hm).reported_cases
      (standsFor_rename h ops _ p op m) x with
      ⟨hnone, hnone'⟩ | ⟨f, f', hfinding, hreported, hreported'⟩
    · rw [hnone, hnone']
      exact eventsRenamed_nil p
    · rw [hreported, hreported']
      exact hfinding.events x

end

theorem results_rename :
    d.results (ops.map (Op.rename p)) = (d.results ops).map (renameResult p) := by
  rw [← map_result_chronicle, ← map_result_chronicle]
  refine List.ext_getElem? fun m => ?_
  simp only [List.getElem?_map, getElem?_chronicle]
  cases hop : ops[m]? with
  | none => rfl
  | some op =>
    simp only [Option.map_some]
    rw [result_rename hstarts h hn hlater hp hop]

theorem reports_rename (x : Address) (m : Nat) :
    List.Forall₂ (EventsRenamed p) (d.reports ops x m) (d.reports (ops.map (Op.rename p)) x m) := by
  induction m with
  | zero => exact .nil
  | succ m ih =>
    rw [reports, reports, List.getElem?_map]
    cases hop : ops[m]? with
    | none => exact ih
    | some op =>
      have hforget : op.rename p = .forget x ↔ op = .forget x := Op.map_eq_forget
      simp only [Option.map_some, hforget]
      split
      · exact .nil
      · exact List.rel_append ih (.cons (reported_rename hstarts h hn hlater hp hop x) .nil)

/-- The same threads are there once all of them have come to be. -/
theorem isSome_state?_rename (hm : n ≤ m) (t : Nat) :
    ((d.after (ops.map (Op.rename p)) m).state? (p t)).isSome =
      ((d.after ops m).state? t).isSome :=
  isSome_eq_of_rel ((twins_after hstarts h hn hlater hp hm).renamed.threads t)

variable (hevery : config.reporting = .every)
include hevery

theorem raceCount_rename (x : Address) (m : Nat) :
    (d.after (ops.map (Op.rename p)) m).raceCount x = (d.after ops m).raceCount x := by
  rw [raceCount_eq, raceCount_eq, races_after_every h hevery, races_after_every h hevery]
  exact EventsRenamed.length_flatten_eq (reports_rename hstarts h hn hlater hp x m)

theorem totalRaces_rename (m : Nat) :
    (d.after (ops.map (Op.rename p)) m).totalRaces = (d.after ops m).totalRaces := by
  have hcount := raceCount_rename hstarts h hn hlater hp hevery
  have hplaced (ops : List (Op Handle)) (m : Nat) : (d.after ops m).Placed :=
    (placed_create h).run _
  induction m with
  | zero => rfl
  | succ m ih =>
    cases hop : ops[m]? with
    | none =>
      rw [after_succ_of_none d hop, after_succ_of_none d (by rw [List.getElem?_map, hop]; rfl), ih]
    | some op =>
      have hsucc := after_succ d hop
      have hsucc' : d.after (ops.map (Op.rename p)) (m + 1) = _ :=
        after_succ d (by rw [List.getElem?_map, hop]; rfl)
      rw [hsucc, hsucc']
      refine totalRaces_step_eq (by rw [Op.rename, Op.map_map]) (hplaced ops m) (hplaced _ m) ih
        (hcount · m) fun x => ?_
      rw [← hsucc, ← hsucc', hcount]

theorem permuted_after (m : Nat) :
    Permuted p (d.after ops m) (d.after (ops.map (Op.rename p)) m) := by
  have hcount := raceCount_rename hstarts h hn hlater hp hevery
  have htotal := totalRaces_rename hstarts h hn hlater hp hevery m
  rcases Nat.lt_or_ge m n with hm | hm
  · -- Some threads are still to come, and both runs are in one state.
    have hfresh := fresh_after hstarts h hn hm.le
    rw [after_rename_of_starts hstarts d p hm.le]
    refine ⟨fun t s s' => hfresh.threads_renamed (sound_after h ops m) (hm.le.trans hn),
      fun lock => ?_, fun x => ?_, fun x => rfl, rfl⟩
    · rw [hfresh.lockClock?_eq]
      exact .none
    · rw [hfresh.entryAt?_eq]
      exact .none
  · have hr := (twins_after hstarts h hn hlater hp hm).renamed
    refine ⟨fun t s s' hs hs' => ?_, hr.locks, fun x => ?_, (hcount · m), htotal⟩
    · have ht : Option.Rel _ ((d.after ops m).state? t) _ := hr.threads t
      change Option.Rel _ _ ((d.after (ops.map (Op.rename p)) m).state? (p t)) at ht
      rw [hs, hs'] at ht
      cases ht with
      | some hrenamed => exact hrenamed
    · exact rel_entryAt? (hr.monitors x) (hr.histories x)

end Run

/-- No thread is special. Where all threads come to be first, the run may be told with the threads
permuted, and the detector hands back the same under the other names. After each operation the
clocks, the epochs and the histories are the permuted ones, and as many races have been found.
As long as the record of a location is not full it holds the same events under the other names,
where only the reads that one write races with may have changed places. -/
theorem run_permuted (hn : n ≤ K) (p : Equiv.Perm (Set.Icc 1 n))
    (h : create rule K config tag = .ok d) (hevery : config.reporting = .every)
    {ops : List (Op Handle)} (hstarts : ops.take n = List.replicate n .start)
    (hlater : .start ∉ ops.drop n) :
    let q := Renaming.ofPerm hn p
    let ops' := ops.map (Op.rename q)
    d.results ops' = (d.results ops).map (renameResult q) ∧
      ∀ m, Permuted q (d.after ops m) (d.after ops' m) ∧
        (n ≤ m → ∀ t, ((d.after ops' m).state? (q t)).isSome =
          ((d.after ops m).state? t).isSome) ∧
        ∀ x, (d.after ops m).raceCount x ≤ config.maxEvents →
          (d.after ops m).raceEvents x = (d.reports ops x m).flatten ∧
            (d.after ops' m).raceEvents x = (d.reports ops' x m).flatten ∧
            List.Forall₂ (EventsRenamed q) (d.reports ops x m) (d.reports ops' x m) := by
  intro q ops'
  have hq : ∀ t, q t ≤ n ↔ t ≤ n := Renaming.ofPerm_le_iff hn p
  refine ⟨results_rename hstarts h hn hlater hq, fun m =>
    ⟨permuted_after hstarts h hn hlater hq hevery m,
      isSome_state?_rename hstarts h hn hlater hq, fun x hroom => ?_⟩⟩
  have hcount : (d.after ops' m).raceCount x = (d.after ops m).raceCount x :=
    raceCount_rename hstarts h hn hlater hq hevery x m
  exact ⟨raceEvents_after_every h hevery ops x hroom,
    raceEvents_after_every h hevery ops' x (hcount.trans_le hroom),
    reports_rename hstarts h hn hlater hq x m⟩

/-- The first one of three threads changes places with the last one. -/
def endsSwapped : Equiv.Perm (Set.Icc 1 3) := Equiv.swap ⟨1, by decide⟩ ⟨3, by decide⟩

theorem readTogether_permuted : ((forThree .epoch).after (readTogether.map
    (Op.rename (Renaming.ofPerm (le_refl 3) endsSwapped))) 6).totalRaces = 2 := by
  obtain ⟨-, hafter⟩ := run_permuted (le_refl 3) endsSwapped (create_forThree .epoch) rfl
    (rfl : readTogether.take 3 = List.replicate 3 .start) (by decide)
  exact (hafter 6).1.totalRaces_eq.trans (by decide)

end Detector

end RaceWatch
