import RaceWatch.Proofs.Rerun

/-!
The number of threads that is allowed for makes no difference to a run with fewer threads. A
detector with wider clocks hands back the same, reports the same and keeps the same, where all
its clocks are followed by zeros for the threads that have not come to be.
-/

namespace RaceWatch

open VectorClock

/-! ### Wider clocks -/

namespace VectorClock

variable {K K' : Nat} {a b : VectorClock K}

theorem ext_time (h : ∀ t, a.time t = b.time t) : a = b :=
  ext fun i => by rw [← time_ownerOf, ← time_ownerOf, h]

theorem time_ownerOf_eq_getD (c : VectorClock K) (i : Nat) :
    c.time (ownerOf i) = c.toList.getD i 0 := by
  by_cases hi : i < K
  · have hlt : i < c.toList.length := by simpa [toList] using hi
    rw [c.time_ownerOf ⟨i, hi⟩, List.getD_eq_getElem _ _ hlt]
    rfl
  · have hle : c.toList.length ≤ i := by simpa [toList] using hi
    rw [List.getD_eq_default _ _ hle]
    exact time_eq_zero (fun h => hi h.2) c

/-- The same clock with room for another number of threads. -/
def widen (K' : Nat) (c : VectorClock K) : VectorClock K' := ofList c.toList

/-- A clock that is given more room is followed by zeros. -/
theorem toList_widen (h : K ≤ K') (c : VectorClock K) :
    (c.widen K').toList = c.toList ++ List.replicate (K' - K) 0 := by
  have hlength : c.toList.length = K := by simp [toList]
  refine List.ext_getElem (by simp [toList]; omega) fun i hi hi' => ?_
  have hcoord : (c.widen K').toList[i] = c.toList.getD i 0 := by
    simp [widen, ofList, toList]
  rw [hcoord]
  by_cases hlt : i < K
  · rw [List.getD_eq_getElem _ _ (hlength.symm ▸ hlt), List.getElem_append_left]
  · rw [List.getD_eq_default _ _ (by omega), List.getElem_append_right (by omega),
      List.getElem_replicate]

theorem time_widen (h : K ≤ K') (c : VectorClock K) (t : Nat) : (c.widen K').time t = c.time t := by
  by_cases h0 : t = noThread
  · rw [time_eq_zero (fun hf => hf.1 h0), time_eq_zero (fun hf => hf.1 h0)]
  · rw [← ownerOf_coordinateOf h0, time_ownerOf_eq_getD, time_ownerOf_eq_getD, toList_widen h]
    by_cases hlt : coordinateOf t < c.toList.length
    · rw [List.getD_append _ _ _ _ hlt]
    · rw [List.getD_append_right _ _ _ _ (Nat.le_of_not_lt hlt),
        List.getD_eq_default _ _ (Nat.le_of_not_lt hlt)]
      rw [List.getD_eq_getElem?_getD, List.getElem?_replicate]
      split <;> rfl

end VectorClock

def ThreadState.widen {K : Nat} (K' : Nat) (s : ThreadState K) : ThreadState K' :=
  ⟨s.id, s.clock.widen K', s.epoch, s.exited⟩

def EpochHistory.widen {K : Nat} (K' : Nat) (h : EpochHistory K) : EpochHistory K' :=
  ⟨h.write, h.read, h.readClock.widen K'⟩

def PreciseHistory.widen {K : Nat} (K' : Nat) (h : PreciseHistory K) : PreciseHistory K' :=
  ⟨h.last?.map fun a => ⟨a.thread, a.kind, a.clock.widen K'⟩⟩

def Rule.widen {K : Nat} (K' : Nat) : (rule : Rule) → rule.History K → rule.History K'
  | .epoch => EpochHistory.widen K'
  | .precise => PreciseHistory.widen K'

def Entry.widen {rule : Rule} {K : Nat} (K' : Nat) (e : Entry rule K) : Entry rule K' :=
  ⟨e.address, rule.widen K' e.history, e.races⟩

/-! ### No new names -/

/-- The renaming that gives the threads more room and leaves them their names. -/
def Renaming.widening {K K' : Nat} (h : K ≤ K') : Renaming K K' where
  perm := Equiv.refl Nat
  perm_noThread := rfl
  perm_le _ ht := ht.trans h

section

variable {K K' : Nat} {hK : K ≤ K'}

theorem VectorClock.Renamed.eq_widen {c : VectorClock K} {c' : VectorClock K'}
    (h : c.Renamed (.widening hK) c') : c' = c.widen K' :=
  ext_time fun t => (h t).trans (time_widen hK c t).symm

theorem Epoch.Renamed.eq_of_widening {e e' : Epoch} (h : e.Renamed (.widening hK) e') : e' = e :=
  ext_parts h.thread_eq h.clock_eq

theorem ThreadState.Renamed.eq_widen {s : ThreadState K} {s' : ThreadState K'}
    (h : s.Renamed (.widening hK) s') : s' = s.widen K' := by
  obtain ⟨id, clock, epoch, exited⟩ := s'
  obtain ⟨hid, hclock, hepoch, hexited⟩ := h
  simp only at hid hclock hepoch hexited
  obtain rfl : id = s.id := hid
  obtain rfl := hclock.eq_widen
  obtain rfl := hepoch.eq_of_widening
  obtain rfl := hexited
  rfl

theorem EpochHistory.Renamed.eq_widen {h : EpochHistory K} {h' : EpochHistory K'}
    (hr : h.Renamed (.widening hK) h') : h' = h.widen K' := by
  obtain ⟨write, read, readClock⟩ := h'
  obtain ⟨hwrite, hread, hclock⟩ := hr
  simp only at hwrite hread hclock
  obtain rfl := hwrite.eq_of_widening
  obtain rfl := hread.eq_of_widening
  obtain rfl := hclock.eq_widen
  rfl

theorem PreciseHistory.Renamed.eq_widen {h : PreciseHistory K} {h' : PreciseHistory K'}
    (hr : h.Renamed (.widening hK) h') : h' = h.widen K' := by
  obtain ⟨last⟩ := h
  obtain ⟨last'⟩ := h'
  cases hr with
  | none => rfl
  | @some a a' ha =>
    obtain ⟨thread, kind, clock⟩ := a'
    obtain ⟨hthread, hkind, hclock⟩ := ha
    simp only at hthread hkind hclock
    obtain rfl : thread = a.thread := hthread
    obtain rfl := hkind
    obtain rfl := hclock.eq_widen
    rfl

theorem Rule.Renamed.eq_widen {rule : Rule} {h : rule.History K} {h' : rule.History K'}
    (hr : rule.Renamed (.widening hK) h h') : h' = rule.widen K' h := by
  cases rule with
  | epoch => exact EpochHistory.Renamed.eq_widen hr
  | precise => exact PreciseHistory.Renamed.eq_widen hr

end

/-- Values that stand in a relation which is a function, if they are there at all. -/
theorem eq_map_of_rel {α β : Type} {R : α → β → Prop} {f : α → β} {o : Option α} {o' : Option β}
    (hR : ∀ a b, R a b → b = f a) (h : Option.Rel R o o') : o' = o.map f := by
  cases h with
  | none => rfl
  | some h => rw [hR _ _ h, Option.map_some]

theorem renameRace_id (races : List (RaceKind × Nat)) : races.map (renameRace id) = races :=
  List.map_id races

/-- Where the threads keep their names, the races come in the same order. -/
theorem RacesRenamed.eq_of_id {races races' : List (RaceKind × Nat)}
    (h : RacesRenamed id races races') : races' = races := by
  obtain ⟨head, reads, reads', rfl, rfl, hperm, -, hreads, hreads'⟩ := h
  rw [renameRace_id] at hperm
  rw [renameRace_id, hperm.eq_of_pairwise (fun a b _ _ hab hba => ?_) hreads' hreads]
  exact absurd hab (Nat.lt_asymm hba)

theorem Epoch.rename_id (e : Epoch) : e.rename id = e := pack_thread_clock e

theorem Error.rename_id (e : Error) : e.rename id = e := by
  cases e with
  | fatal cause =>
    cases cause with
    | epochOutOfRange epoch capacity => rw [rename, Fatal.rename, Epoch.rename_id]
    | threadOutOfRange | clockOverflow => rfl
  | invalidCapacity | capacityExceeded | threadExited | foreignThread | selfSynchronization => rfl

theorem renameResult_id {α : Type} (result : Except (Failure Error) α) :
    renameResult id result = result := by
  rcases result with (e | cause) | v
  · simp [renameResult, Except.mapError, Failure.map, Error.rename_id]
  · rfl
  · rfl

/-! ### How many threads have come to be -/

namespace Registry

variable {K : Nat} {r : Registry K}

theorem size_le_of_state?_eq_none {n : Nat} (h : r.state? (ownerOf n) = none) : r.size ≤ n := by
  simpa [state?, ownerOf, noThread, coordinateOf, size] using h

theorem Renamed.size_eq {K' : Nat} {hK : K ≤ K'} {r' : Registry K'}
    (h : r.Renamed (.widening hK) r') : r'.size = r.size := by
  have hnone (n : Nat) : r'.state? (ownerOf n) = none ↔ r.state? (ownerOf n) = none := by
    have hsome : (r'.state? (ownerOf n)).isSome = (r.state? (ownerOf n)).isSome :=
      isSome_eq_of_rel (h (ownerOf n))
    rw [← Option.not_isSome_iff_eq_none, ← Option.not_isSome_iff_eq_none, hsome]
  exact Nat.le_antisymm (size_le_of_state?_eq_none ((hnone _).mpr r.state?_ownerOf_size))
    (size_le_of_state?_eq_none ((hnone _).mp r'.state?_ownerOf_size))

end Registry

namespace Detector

variable {rule : Rule} {K K' : Nat} {d : Detector rule K} {d' : Detector rule K'}
  {op op' : Op Handle} {config : Config} {tag tag' : Nat} {hK : K ≤ K'}

theorem size_after_mono (d : Detector rule K) (ops : List (Op Handle)) :
    Monotone fun n => (d.after ops n).registry.size := by
  refine monotone_nat_of_le_succ fun n => ?_
  cases hop : ops[n]? with
  | none => rw [after_succ_of_none d hop]
  | some op =>
    rw [after_succ d hop]
    exact size_le_size_step _ op

theorem size_after_le_run (d : Detector rule K) (ops : List (Op Handle)) (n : Nat) :
    (d.after ops n).registry.size ≤ (d.run ops).registry.size := by
  rcases Nat.le_total n ops.length with hn | hn
  · rw [← after_length]
    exact d.size_after_mono ops hn
  · rw [after, List.take_of_length_le hn]

theorem address_entryOf (h : create rule K config tag = .ok d) (ops : List (Op Handle))
    (x : Address) (n : Nat) : ((d.after ops n).entryOf x).address = x :=
  visit_induction h ops x (P := fun _ entry => entry.address = x) rfl
    (fun _ _ _ ih _ _ _ => ih) n

/-! ### The start of a thread -/

theorem step_start_of_refused {e : Error} (h : d.roster.refusal? K .start = some e) :
    (d.step .start).state = d ∧ (d.step .start).result = .error (.error e) := by
  have hregister : d.registry.register = .fail d.registry e [] := by
    rw [refusal?_start] at h
    by_cases hcap : K = 0 ∨ maxThread < K
    · rw [if_pos hcap] at h
      simp [Registry.register, checkCapacity, hcap, Option.some.inj h]
    · rw [if_neg hcap] at h
      by_cases hfull : K < ownerOf d.registry.size
      · rw [if_pos hfull] at h
        simp [Registry.register, checkCapacity, hcap, hfull, Option.some.inj h]
      · simp [hfull] at h
  simp only [step, start, hregister]
  exact ⟨rfl, rfl⟩

/-! ### Side by side -/

/-- Two detectors of which the second one has more room and keeps all else the same. -/
structure Widened (hK : K ≤ K') (d : Detector rule K) (d' : Detector rule K') : Prop where
  twins : Twins (.widening hK) d d'
  config_eq : d'.config = d.config
  races_eq : ∀ x, (d'.entryOf x).races = (d.entryOf x).races
  totalRaces_eq : d'.totalRaces = d.totalRaces

theorem Widened.standsFor (hK : K ≤ K') (tag tag' : Nat)
    (hop : op.map (·.seenBy tag) = op'.map (·.seenBy tag')) :
    op.StandsFor (Renaming.widening hK) tag tag' op' := hop.symm

theorem Widened.threads_add (h : Widened hK d d') (hroom : ownerOf d.registry.size ≤ K) :
    (d.registry.add (.first (ownerOf d.registry.size))).Renamed (.widening hK)
      (d'.registry.add (.first (ownerOf d.registry.size))) := fun t => by
  rw [Registry.state?_add, Registry.state?_add, h.twins.renamed.threads.size_eq]
  change Option.Rel _ _ (if t = _ then _ else _)
  split
  · exact .some (ThreadState.renamed_first (p := .widening hK) ⟨Nat.succ_ne_zero _, hroom⟩
      h.twins.capacity h.twins.capacity')
  · exact h.twins.renamed.threads t

/-- Both detectors hand a new thread the same identity, or both have no room for it. -/
theorem Widened.start (h : Widened hK d d') (hcap : K ≠ 0)
    (hfew : (d'.step .start).state.registry.size ≤ K) :
    (d.step .start).state.Renamed (.widening hK) (d'.step .start).state ∧
      (d'.step .start).result =
        (d.step .start).result.map (Value.under d'.registry.tag) := by
  have hsize := h.twins.renamed.threads.size_eq
  have hrefusal := h.twins.sound.refusal?_start hcap
  have hrefusal' := h.twins.sound'.refusal?_start (by omega : K' ≠ 0)
  rw [hsize] at hrefusal'
  by_cases hfull' : K' < ownerOf d.registry.size
  · -- There is no room in the wider clocks, so that the two capacities are the same.
    obtain rfl : K = K' := by
      have := h.twins.sound.size_le
      simp only [ownerOf] at hfull'
      omega
    rw [if_pos hfull'] at hrefusal hrefusal'
    obtain ⟨hstate, hresult⟩ := step_start_of_refused hrefusal
    obtain ⟨hstate', hresult'⟩ := step_start_of_refused hrefusal'
    rw [hstate, hstate', hresult, hresult']
    exact ⟨h.twins.renamed, rfl⟩
  · rw [if_neg hfull'] at hrefusal'
    have hstate' := h.twins.sound'.state_step_start hrefusal'
    have hroom : ownerOf d.registry.size ≤ K := by
      rw [hstate', Registry.size, Registry.add, List.length_append] at hfew
      rwa [← hsize]
    rw [if_neg (Nat.not_lt.mpr hroom)] at hrefusal
    have hstate := h.twins.sound.state_step_start hrefusal
    rw [h.twins.sound.result_start hrefusal, h.twins.sound'.result_start hrefusal', hstate, hstate',
      length_gone, length_gone, hsize]
    exact ⟨⟨h.threads_add hroom, h.twins.renamed.locks, h.twins.renamed.monitors,
      h.twins.renamed.histories⟩, rfl⟩

/-- Only a new thread is handed out under the tag of its detector. -/
theorem result_map_under (d : Detector rule K) (hop : op ≠ .start) (tag : Nat) :
    (d.step op).result.map (Value.under tag) = (d.step op).result := by
  have hflag (x : Except (Failure Error) Bool) :
      (x.map Value.flag).map (Value.under tag) = x.map Value.flag := by
    cases x <;> rfl
  cases op with
  | start => exact absurd rfl hop
  | fork | join | exit | acquire | release | access => exact Value.map_under_unit tag _
  | forgetLock lock => exact hflag (d.locks.forget lock).result
  | init x => exact hflag (d.shadow.init x (.neutral x)).result
  | forget x => exact hflag (d.shadow.forget x).result

/-- Told of an operation on the same threads, both detectors hand back the same and keep the
same afterwards. -/
theorem Widened.step (h : Widened hK d d') (hcap : K ≠ 0)
    (hop : op.map (·.seenBy d.registry.tag) = op'.map (·.seenBy d'.registry.tag))
    (hfew : (d'.step op').state.registry.size ≤ K) :
    (d.step op).state.Renamed (.widening hK) (d'.step op').state ∧
      (d'.step op').result = (d.step op).result.map (Value.under d'.registry.tag) := by
  by_cases hstart : op = .start
  · subst hstart
    obtain rfl : op' = .start := by cases op' <;> simp_all [Op.map]
    exact h.start hcap hfew
  · obtain ⟨hrenamed, hresult⟩ := h.twins.step (standsFor hK _ _ hop) hstart
    refine ⟨hrenamed, ?_⟩
    rw [hresult, result_map_under _ hstart]
    exact renameResult_id _

/-- The same races are reported, in the same order. -/
theorem Widened.reported_eq (h : Widened hK d d')
    (hop : op.map (·.seenBy d.registry.tag) = op'.map (·.seenBy d'.registry.tag)) (x : Address) :
    d'.reported x op' = d.reported x op := by
  rcases h.twins.reported_cases (standsFor hK _ _ hop) x with
    ⟨hnone, hnone'⟩ | ⟨f, f', hfinding, hreported, hreported'⟩
  · rw [hnone, hnone']
  · have hid : f'.thread.id = f.thread.id := hfinding.thread.id_eq
    rw [hreported, hreported', Entry.eventsOf, Entry.eventsOf, hid, hfinding.races.eq_of_id]

theorem Widened.races_step (h : Widened hK d d')
    (hop : op.map (·.seenBy d.registry.tag) = op'.map (·.seenBy d'.registry.tag)) (x : Address) :
    ((d'.step op').state.entryOf x).races = ((d.step op).state.entryOf x).races := by
  have hforget : op' = .forget x ↔ op = .forget x := by
    rw [← Op.map_eq_forget, ← hop, Op.map_eq_forget]
  rw [Detector.races_step, Detector.races_step, h.config_eq, h.races_eq, h.reported_eq hop]
  simp only [hforget]

theorem Widened.totalRaces_step (h : Widened hK d d') (hd : d.Placed) (hd' : d'.Placed)
    (hop : op.map (·.seenBy d.registry.tag) = op'.map (·.seenBy d'.registry.tag)) :
    (d'.step op').state.totalRaces = (d.step op).state.totalRaces := by
  have hunit : op'.map (fun _ => ()) = op.map fun _ => () := by
    simpa [Op.map_map, Function.comp_def] using (congrArg (Op.map fun _ => ()) hop).symm
  refine totalRaces_step_eq hunit hd hd' h.totalRaces_eq (fun x => ?_) fun x => ?_
  · rw [raceCount_eq, raceCount_eq, h.races_eq]
  · rw [raceCount_eq, raceCount_eq, h.races_step hop]

theorem Widened.state?_eq (h : Widened hK d d') (t : Nat) :
    d'.state? t = (d.state? t).map (·.widen K') :=
  eq_map_of_rel (fun _ _ => ThreadState.Renamed.eq_widen) (h.twins.renamed.threads t)

theorem Widened.lockClock?_eq (h : Widened hK d d') (lock : Address) :
    d'.lockClock? lock = (d.lockClock? lock).map (·.widen K') :=
  eq_map_of_rel (fun _ _ => VectorClock.Renamed.eq_widen) (h.twins.renamed.locks lock)

theorem Widened.entryAt?_eq (h : Widened hK d d') {x : Address}
    (haddress : (d'.entryOf x).address = (d.entryOf x).address) :
    d'.entryAt? x = (d.entryAt? x).map (·.widen K') := by
  refine eq_map_of_rel (R := fun entry entry' => entry' = entry.widen K') (fun _ _ => id)
    (rel_entryAt? (h.twins.renamed.monitors x) ?_)
  have hhistory := (h.twins.renamed.histories x).eq_widen
  have hraces := h.races_eq x
  generalize d'.entryOf x = entry' at haddress hhistory hraces
  obtain ⟨address', history', races'⟩ := entry'
  simp only at haddress hhistory hraces
  rw [haddress, hhistory, hraces]
  rfl

theorem renamed_of_create (p : Renaming K K') (h : create rule K config tag = .ok d)
    (h' : create rule K' config tag' = .ok d') : d.Renamed p d' := by
  obtain ⟨-, rfl⟩ := create_eq_ok h
  obtain ⟨-, rfl⟩ := create_eq_ok h'
  have hempty (K : Nat) (tag t : Nat) : (Registry.empty tag : Registry K).state? t = none := by
    simp [Registry.state?, Registry.empty]
  refine ⟨fun t => ?_, fun lock => ?_, fun x => ?_, fun x => ?_⟩
  · rw [hempty, hempty]
    exact .none
  · simp only [lockClock?, LockStore.clock?_empty]
    exact .none
  · simp only [entryAt?, ShadowMemory.get?_empty]
    rfl
  · simp only [entryOf, ShadowMemory.getD, ShadowMemory.get?_empty]
    exact rule.renamed_neutral p

theorem ne_zero_of_create (h : create rule K config tag = .ok d) : K ≠ 0 := by
  rintro rfl
  simp [create, checkCapacity, bind, Except.bind] at h

section Run

variable (hK) (h : create rule K config tag = .ok d)
  (h' : create rule K' config tag' = .ok d') {ops ops' : List (Op Handle)}
  (hops : ops.map (Op.map (·.seenBy tag)) = ops'.map (Op.map (·.seenBy tag')))
  (hfew : (d'.run ops').registry.size ≤ K)
include h h' hops hfew

theorem widened_after (n : Nat) : Widened hK (d.after ops n) (d'.after ops' n) := by
  have hconfig (n : Nat) : (d'.after ops' n).config = (d.after ops n).config :=
    (config_after h' ops' n).trans (config_after h ops n).symm
  have hcap : K ≠ 0 := ne_zero_of_create h
  induction n with
  | zero =>
    have hrenamed : (d.after ops 0).Renamed (.widening hK) (d'.after ops' 0) :=
      renamed_of_create _ h h'
    refine ⟨hrenamed.twins h h', hconfig 0, fun x => ?_, ?_⟩
    · obtain ⟨-, rfl⟩ := create_eq_ok h
      obtain ⟨-, rfl⟩ := create_eq_ok h'
      simp [entryOf, ShadowMemory.getD, Entry.neutral]
    · obtain ⟨-, rfl⟩ := create_eq_ok h
      obtain ⟨-, rfl⟩ := create_eq_ok h'
      rfl
  | succ n ih =>
    rcases getElem?_cases_of_map_eq hops n with ⟨hop, hop'⟩ | ⟨op, op', hop, hop', hseen⟩
    · rwa [after_succ_of_none d hop, after_succ_of_none d' hop']
    · rw [← tag_after h ops n, ← tag_after h' ops' n] at hseen
      have hsucc := after_succ d hop
      have hsucc' := after_succ d' hop'
      have hsize := (d'.size_after_le_run ops' (n + 1)).trans hfew
      rw [hsucc'] at hsize
      have hrenamed := (ih.step hcap hseen hsize).1
      rw [← hsucc, ← hsucc'] at hrenamed
      refine ⟨hrenamed.twins h h', hconfig _, fun x => ?_, ?_⟩
      · rw [hsucc, hsucc', ih.races_step hseen]
      · have hplaced : (d.after ops n).Placed := (placed_create h).run _
        have hplaced' : (d'.after ops' n).Placed := (placed_create h').run _
        rw [hsucc, hsucc', ih.totalRaces_step hplaced hplaced' hseen]

include hK in
/-- In both runs every operation hands back the same. -/
theorem results_widened :
    d'.results ops' = (d.results ops).map (Except.map (Value.under tag')) := by
  rw [← map_result_chronicle, ← map_result_chronicle]
  refine List.ext_getElem? fun n => ?_
  simp only [List.getElem?_map, getElem?_chronicle]
  rcases getElem?_cases_of_map_eq hops n with ⟨hop, hop'⟩ | ⟨op, op', hop, hop', hseen⟩
  · rw [hop, hop']
    rfl
  · rw [← tag_after h ops n, ← tag_after h' ops' n] at hseen
    have hsize := (d'.size_after_le_run ops' (n + 1)).trans hfew
    rw [after_succ d' hop'] at hsize
    have hstep := (widened_after hK h h' hops hfew n).step (ne_zero_of_create h) hseen hsize
    rw [tag_after h' ops' n] at hstep
    simp only [hop, hop', Option.map_some, hstep.2]

include hK in
/-- The capacity makes no difference to a run in which no more threads come to be than the
smaller one allows for. All operations hand back the same, and after each of them the wider
detector keeps what the other one keeps, with zeros behind every clock. -/
theorem run_widened :
    (∀ c : VectorClock K, (c.widen K').toList = c.toList ++ List.replicate (K' - K) 0) ∧
      d'.results ops' = (d.results ops).map (Except.map (Value.under tag')) ∧
      ∀ n, (∀ t, (d'.after ops' n).state? t = ((d.after ops n).state? t).map (·.widen K')) ∧
        (∀ lock, (d'.after ops' n).lockClock? lock =
          ((d.after ops n).lockClock? lock).map (·.widen K')) ∧
        (∀ x, (d'.after ops' n).entryAt? x = ((d.after ops n).entryAt? x).map (·.widen K')) ∧
        (d'.after ops' n).totalRaces = (d.after ops n).totalRaces := by
  refine ⟨toList_widen hK, results_widened hK h h' hops hfew, fun n => ?_⟩
  have hw := widened_after hK h h' hops hfew n
  refine ⟨hw.state?_eq, hw.lockClock?_eq, fun x => hw.entryAt?_eq ?_, hw.totalRaces_eq⟩
  rw [address_entryOf h, address_entryOf h']

end Run

/-- The same run with room for three threads and with room for five. -/
theorem relay_widened : ∃ d : Detector .precise 5, create .precise 5 .default 9 = .ok d ∧
    ∀ t, (d.after (relay.map (Op.map fun h => ⟨9, h.thread⟩)) 7).state? t =
      (((forThree .precise).after relay 7).state? t).map (·.widen 5) := by
  refine ⟨⟨.default, .empty 9, .empty, .empty, 0⟩, rfl, ?_⟩
  exact ((run_widened (by decide : 3 ≤ 5) (create_forThree .precise) rfl (by decide)
    (by decide)).2.2 7).1

end Detector

end RaceWatch
