import RaceWatch.Proofs.Lifetimes
import RaceWatch.Proofs.Lockstep

/-!
The options say how much of what is found is reported, and never what is found. Two
detectors of one rule that are told of the same operations keep the same threads, locks and
histories whatever their options are. What their records of a location hold was reported to
both of them, and each keeps of it what its own options ask for. So the records under any
options can be told from those of a detector that counts every race and cuts none off.
-/

namespace RaceWatch

/-! ### What a record keeps of all that is reported -/

namespace RaceRecord

variable {config config' : Config} {r r' : RaceRecord}

theorem reportAll_of_suppresses (h : r.suppresses config = true) (events : List RaceEvent) :
    r.reportAll config events = r := by
  induction events with
  | nil => rfl
  | cons event rest ih =>
    have hreport : r.report config event = r := by rw [report, if_pos h]
    rw [reportAll, List.foldl_cons, hreport]
    exact ih

theorem reportAll_empty_every (hevery : config.reporting = .every) (events : List RaceEvent) :
    empty.reportAll config events = ⟨events.length, events.take config.maxEvents⟩ := by
  have hempty : empty = ⟨([] : List RaceEvent).length, [].take config.maxEvents⟩ := by
    simp [empty]
  exact reportAll_every hevery [] hempty events

/-- Where only the first race counts, a record counts the first that is reported and keeps
it if there is room at all. -/
theorem reportAll_first (hfirst : config.reporting = .firstPerLocation)
    (events : List RaceEvent) : empty.reportAll config events =
      ⟨min 1 events.length, events.take (min 1 config.maxEvents)⟩ := by
  cases events with
  | nil => simp [reportAll, empty]
  | cons event rest =>
    have hnot : empty.suppresses config = false := by simp [suppresses, empty]
    have hsuppresses : (empty.report config event).suppresses config = true := by
      rw [suppresses, count_report, counted, hnot]
      simp [hfirst]
    rw [reportAll, List.foldl_cons, ← reportAll, reportAll_of_suppresses hsuppresses, report,
      hnot]
    by_cases hroom : config.maxEvents = 0
    · simp [empty, hroom]
    · have hmin : min 1 config.maxEvents = 1 := by omega
      simp [empty, Nat.pos_of_ne_zero hroom, hmin]

/-- The same was reported to two records under options of their own. -/
def Alike (config config' : Config) (r r' : RaceRecord) : Prop :=
  ∃ events, r = empty.reportAll config events ∧ r' = empty.reportAll config' events

theorem Alike.reportAll (h : Alike config config' r r') (events : List RaceEvent) :
    Alike config config' (r.reportAll config events) (r'.reportAll config' events) := by
  obtain ⟨earlier, rfl, rfl⟩ := h
  exact ⟨earlier ++ events, (reportAll_append _ _ _ _).symm, (reportAll_append _ _ _ _).symm⟩

/-- What a record holds can be told from one that counts every race and has room for all
that were reported. -/
theorem Alike.eq_of_every (h : Alike config config' r r') (hevery : config'.reporting = .every)
    (hroom : r'.count ≤ config'.maxEvents) : r = empty.reportAll config r'.events := by
  obtain ⟨events, rfl, rfl⟩ := h
  rw [reportAll_empty_every hevery] at hroom ⊢
  rw [List.take_of_length_le hroom]

/-- Where every race counts, as many count as were reported, whatever there is room for. -/
theorem Alike.count_every (h : Alike config config' r r') (hevery : config.reporting = .every)
    (hevery' : config'.reporting = .every) : r'.count = r.count := by
  obtain ⟨events, rfl, rfl⟩ := h
  rw [reportAll_empty_every hevery, reportAll_empty_every hevery']

/-- Where only the first race counts, it counts exactly if there is one. -/
theorem Alike.count_first (h : Alike config config' r r')
    (hfirst : config.reporting = .firstPerLocation) :
    r.count = if r'.count = 0 then 0 else 1 := by
  obtain ⟨events, rfl, rfl⟩ := h
  rw [reportAll_first hfirst]
  cases events with
  | nil => rfl
  | cons event rest =>
    have hne : ¬ (empty.reportAll config' (event :: rest)).count = 0 := by
      simp [count_reportAll_eq_zero]
    simp [hne]

end RaceRecord

/-! ### Entries under different options -/

/-- Two entries with the same history, to which the same was reported. -/
structure Entry.Alike {rule : Rule} {K : Nat} (config config' : Config) (e e' : Entry rule K) :
    Prop where
  history_eq : e'.history = e.history
  races : RaceRecord.Alike config config' e.races e'.races

namespace Entry

variable {rule : Rule} {K : Nat} {config config' : Config} {e e' : Entry rule K}

theorem alike_neutral (config config' : Config) (x : Address) :
    Alike config config' (neutral x : Entry rule K) (neutral x) :=
  ⟨rfl, [], rfl, rfl⟩

theorem Alike.found (h : Alike config config' e e') (x : Address)
    (f : Finding (rule.History K) K) :
    Alike config config' (e.found config x f) (e'.found config' x f) :=
  ⟨rfl, h.races.reportAll _⟩

theorem check_of_ok {s : ThreadState K} {a : Access} {f : Finding (rule.History K) K}
    (h : rule.check e.history s a = .ok f) (config : Config) :
    ∃ checked, e.check config s a = .ok checked ∧ checked.entry = e.found config a.address f ∧
      checked.thread = f.thread := by
  simp only [check, h, bind, Except.bind, pure, Except.pure]
  exact ⟨_, rfl, rfl, rfl⟩

theorem check_of_error {s : ThreadState K} {a : Access} {f : Failure Fatal}
    (h : rule.check e.history s a = .error f) (config : Config) :
    e.check config s a = .error f := by
  simp only [check, h, bind, Except.bind]

end Entry

/-! ### Entries that correspond, by address -/

namespace ShadowMemory

variable {ε : Type} {R : ε → ε → Prop} {m m' : ShadowMemory ε} {e e' : ε}

/-- The same addresses are monitored in two shadow memories, and their entries correspond. -/
def Rel (R : ε → ε → Prop) (m m' : ShadowMemory ε) : Prop :=
  ∀ x, Option.Rel R (m.get? x) (m'.get? x)

theorem Rel.getD (h : Rel R m m') (he : R e e') (x : Address) : R (m.getD x e) (m'.getD x e') := by
  have hx := h x
  rw [ShadowMemory.getD, ShadowMemory.getD]
  generalize m.get? x = o at hx
  generalize m'.get? x = o' at hx
  cases hx with
  | none => exact he
  | some hr => exact hr

theorem Rel.put (h : Rel R m m') (he : R e e') (x : Address) : Rel R (m.put x e) (m'.put x e') := by
  intro y
  rw [get?_put, get?_put]
  split
  · exact .some he
  · exact h y

theorem Rel.monitor (h : Rel R m m') (he : R e e') (x : Address) :
    Rel R (m.monitor x e) (m'.monitor x e') := by
  intro y
  rw [get?_monitor, get?_monitor]
  split
  · exact .some (h.getD he x)
  · exact h y

theorem Rel.forget (h : Rel R m m') (x : Address) :
    Rel R (m.forget x).state (m'.forget x).state := by
  intro y
  rw [get?_forget, get?_forget]
  split
  · exact .none
  · exact h y

theorem Rel.contains_eq (h : Rel R m m') (x : Address) :
    m'.entries.contains x = m.entries.contains x := by
  have hx := h x
  simp only [get?] at hx
  rw [Std.ExtTreeMap.contains_eq_isSome_getElem?, Std.ExtTreeMap.contains_eq_isSome_getElem?]
  generalize m.entries[x]? = o at hx
  generalize m'.entries[x]? = o' at hx
  cases hx with
  | none => rfl
  | some => rfl

end ShadowMemory

/-! ### Detectors under different options -/

namespace Detector

variable {rule : Rule} {K : Nat} {d d' : Detector rule K} {config config' : Config}
  {tag tag' : Nat} {op op' : Op Handle} {ops ops' : List (Op Handle)} {x : Address}

/-- Two detectors that differ at most in their options and in what these make of the races
that are found. -/
structure Alike (config config' : Config) (tag' : Nat) (d d' : Detector rule K) : Prop where
  beside : Beside tag' d d'
  shadow : d.shadow.Rel (Entry.Alike config config') d'.shadow
  config_eq : d.config = config
  config_eq' : d'.config = config'

theorem alike_create (h : create rule K config tag = .ok d)
    (h' : create rule K config' tag' = .ok d') : Alike config config' tag' d d' := by
  obtain ⟨-, rfl⟩ := create_eq_ok h
  obtain ⟨-, rfl⟩ := create_eq_ok h'
  refine ⟨⟨rfl, rfl⟩, fun x => ?_, rfl, rfl⟩
  simp only [ShadowMemory.get?_empty]
  exact .none

theorem Alike.access (h : Alike config config' tag' d d') {t t' : Handle}
    (ht : t.seenBy d.registry.tag = t'.seenBy tag') (a : Access) :
    Alike config config' tag' (d.step (.access t a)).state (d'.step (.access t' a)).state ∧
      (d'.step (.access t' a)).result = (d.step (.access t a)).result := by
  obtain ⟨hbeside, hshadow, rfl, rfl⟩ := h
  have hneutral : Entry.Alike d.config d'.config (.neutral a.address : Entry rule K)
      (.neutral a.address) := Entry.alike_neutral _ _ _
  have hmonitor := hshadow.monitor hneutral a.address
  have hentry := hshadow.getD hneutral a.address
  simp only [step, Reply.state_mapResult, Reply.result_mapResult]
  cases hl : d.registry.lookup t with
  | error e =>
    simp only [access, hl, hbeside.lookup_eq ht]
    exact ⟨⟨hbeside, hshadow, rfl, rfl⟩, rfl⟩
  | ok s =>
    have hl' := (hbeside.lookup_eq ht).trans hl
    cases ha : s.ensureAlive with
    | error e =>
      simp only [access, hl, hl', ha]
      exact ⟨⟨⟨hbeside.registry_eq, hbeside.locks_eq⟩, hmonitor, rfl, rfl⟩, rfl⟩
    | ok =>
      -- The histories are the same, and with them what the check comes to.
      cases hf : rule.check (d.shadow.getD a.address (.neutral a.address)).history s a with
      | error f =>
        have hf' := hf
        rw [← hentry.history_eq] at hf'
        simp only [access, hl, hl', ha, Entry.check_of_error hf, Entry.check_of_error hf',
          Reply.state_halt, Reply.result_halt]
        exact ⟨⟨⟨hbeside.registry_eq, hbeside.locks_eq⟩, hmonitor, rfl, rfl⟩, trivial⟩
      | ok f =>
        have hf' := hf
        rw [← hentry.history_eq] at hf'
        obtain ⟨checked, hc, hfound, hthread⟩ := Entry.check_of_ok hf d.config
        obtain ⟨checked', hc', hfound', hthread'⟩ := Entry.check_of_ok hf' d'.config
        simp only [access, hl, hl', ha, hc, hc', hfound, hfound', hthread, hthread',
          Reply.state_done, Reply.result_done]
        refine ⟨⟨⟨?_, hbeside.locks_eq⟩, hmonitor.put (hentry.found a.address f) a.address, rfl,
          rfl⟩, trivial⟩
        rw [hbeside.registry_eq, Registry.put_retag]

/-- Told of the same operation, two detectors stay alike and hand back the same. -/
theorem Alike.step (h : Alike config config' tag' d d')
    (hop : op.map (·.seenBy d.registry.tag) = op'.map (·.seenBy tag')) :
    Alike config config' tag' (d.step op).state (d'.step op').state ∧
      (d'.step op').result = (d.step op).result.map (Value.under tag') := by
  have hconfig := (config_step d op).trans h.config_eq
  have hconfig' := (config_step d' op').trans h.config_eq'
  cases op with
  | access t a =>
    obtain ⟨t', rfl, ht⟩ := Op.map_eq_access.mp hop.symm
    obtain ⟨halike, hresult⟩ := h.access ht.symm a
    refine ⟨halike, ?_⟩
    rw [hresult]
    exact (Value.map_under_unit tag' _).symm
  | init x =>
    obtain ⟨hbeside, -⟩ := h.beside.step hop (by simp)
    cases op' <;> simp only [Op.map, reduceCtorEq, Op.init.injEq] at hop
    subst hop
    have hneutral : Entry.Alike config config' (.neutral x : Entry rule K) (.neutral x) :=
      Entry.alike_neutral _ _ _
    refine ⟨⟨hbeside, h.shadow.monitor hneutral x, hconfig, hconfig'⟩, ?_⟩
    simp only [Detector.step, Detector.init, ShadowMemory.init, h.shadow.contains_eq]
    rfl
  | forget x =>
    obtain ⟨hbeside, -⟩ := h.beside.step hop (by simp)
    obtain rfl := Op.map_eq_forget.mp hop.symm
    refine ⟨⟨hbeside, h.shadow.forget x, hconfig, hconfig'⟩, ?_⟩
    simp only [Detector.step, Detector.forget, ShadowMemory.forget, h.shadow.contains_eq]
    rfl
  | start | fork | join | exit | acquire | release | forgetLock =>
    obtain ⟨hbeside, hresult⟩ := h.beside.step hop (by simp)
    have hnone : op'.location? = none := by
      rw [← Op.location?_map (·.seenBy tag'), ← hop]
      rfl
    refine ⟨⟨hbeside, ?_, hconfig, hconfig'⟩, hresult rfl⟩
    rw [shadow_step rfl, shadow_step hnone]
    exact h.shadow

theorem Alike.races?_rel (h : Alike config config' tag' d d') (x : Address) :
    Option.Rel (RaceRecord.Alike config config') (d.races? x) (d'.races? x) := by
  have hx := h.shadow x
  rw [races?, races?, entryAt?, entryAt?]
  generalize d.shadow.get? x = o at hx
  generalize d'.shadow.get? x = o' at hx
  cases hx with
  | none => exact .none
  | some hentry => exact .some hentry.races

theorem Alike.drops?_rel (h : Alike config config' tag' d d')
    (hop : op.map (·.seenBy d.registry.tag) = op'.map (·.seenBy tag')) :
    Option.Rel (RaceRecord.Alike config config') (d.drops? op) (d'.drops? op') := by
  cases op with
  | forget x =>
    obtain rfl := Op.map_eq_forget.mp hop.symm
    exact h.races?_rel x
  | start | fork | join | exit | acquire | release | forgetLock | access | init =>
    cases op' <;> simp only [Op.map, reduceCtorEq] at hop
    exact .none

theorem Alike.run (h : Alike config config' tag' d d')
    (hops : ops.map (Op.map (·.seenBy d.registry.tag)) = ops'.map (Op.map (·.seenBy tag'))) :
    Alike config config' tag' (d.run ops) (d'.run ops') ∧
      d'.results ops' = (d.results ops).map (Except.map (Value.under tag')) ∧
      List.Forall₂ (RaceRecord.Alike config config') (d.dropped ops) (d'.dropped ops') := by
  induction ops generalizing d d' ops' with
  | nil =>
    obtain rfl := List.map_eq_nil_iff.mp hops.symm
    exact ⟨h, rfl, .nil⟩
  | cons op rest ih =>
    obtain ⟨op', rest', rfl, hop, hrest⟩ := List.map_eq_cons_iff.mp hops.symm
    obtain ⟨hstep, hresult⟩ := h.step hop.symm
    have hdrops := h.drops?_rel hop.symm
    rw [← tag_step d op] at hrest
    obtain ⟨hrun, hresults, hdropped⟩ := ih hstep hrest.symm
    refine ⟨hrun, ?_, ?_⟩
    · rw [results, results, hresult, hresults]
      rfl
    · rw [dropped, dropped]
      generalize d.drops? op = o at hdrops
      generalize d'.drops? op' = o' at hdrops
      cases hdrops with
      | none => exact hdropped
      | some hr => exact .cons hr hdropped

theorem Alike.monitored_eq (h : Alike config config' tag' d d') : d'.monitored = d.monitored := by
  ext x
  have hcontains := h.shadow.contains_eq x
  rw [Std.ExtTreeMap.contains_eq_isSome_getElem?, Std.ExtTreeMap.contains_eq_isSome_getElem?]
    at hcontains
  rw [mem_monitored, mem_monitored]
  exact Bool.eq_iff_iff.mp hcontains

theorem Alike.history_eq (h : Alike config config' tag' d d') (x : Address) :
    (d'.entryAt? x).map (·.history) = (d.entryAt? x).map (·.history) := by
  have hx := h.shadow x
  rw [entryAt?, entryAt?]
  generalize d.shadow.get? x = o at hx
  generalize d'.shadow.get? x = o' at hx
  cases hx with
  | none => rfl
  | some hentry => exact congrArg some hentry.history_eq

theorem Alike.entryOf (h : Alike config config' tag' d d') (x : Address) :
    Entry.Alike config config' (d.entryOf x) (d'.entryOf x) :=
  h.shadow.getD (Entry.alike_neutral config config' x) x

/-- What is counted and kept of a location can be told from a detector that counts every
race and has cut none off there. -/
theorem Alike.races_of_every (h : Alike config config' tag' d d')
    (hevery : config'.reporting = .every) (hroom : d'.raceCount x ≤ config'.maxEvents) :
    (d.entryOf x).races = RaceRecord.empty.reportAll config (d'.raceEvents x) := by
  rw [raceCount_eq] at hroom
  rw [raceEvents_eq]
  exact (h.entryOf x).races.eq_of_every hevery hroom

theorem Alike.keptRaces_first (h : Alike config config' tag' d d')
    (hfirst : config.reporting = .firstPerLocation) :
    d.keptRaces = (d'.monitored.filter fun x => d'.raceCount x ≠ 0).card := by
  rw [Finset.card_filter, h.monitored_eq, keptRaces]
  refine Finset.sum_congr rfl fun x _ => ?_
  rw [raceCount_eq, raceCount_eq, (h.entryOf x).races.count_first hfirst, ite_not]

/-- Where only the first race counts, it counts for each record that would count any. -/
theorem sum_count_first {records records' : List RaceRecord}
    (h : List.Forall₂ (RaceRecord.Alike config config') records records')
    (hfirst : config.reporting = .firstPerLocation) :
    (records.map (·.count)).sum = records'.countP fun r => r.count ≠ 0 := by
  induction h with
  | nil => rfl
  | @cons r r' _ _ hr _ ih =>
    rw [List.map_cons, List.sum_cons, List.countP_cons, ih, hr.count_first hfirst]
    by_cases hzero : r'.count = 0
    · simp [hzero]
    · simp [hzero, Nat.add_comm]

/-- The options only filter the report. Two detectors of one rule, each with options of its
own, are told of the same operations. After any run the states of the threads, the clocks of
the locks and the histories of all entries are the same, and each operation has handed back
the same, where a handle is handed back under the tag of the detector.

Let the second detector count every race. How many it counts does not depend on how many it
has room for, so that for every run there are options under which none is cut off. If none
was cut off on a location, then what it has kept there is all that was found since the entry
was created, and the first one has counted and kept the beginning of it that its own options
ask for. Where these ask only for the first race of a location, its total is the number of
all entries, forgotten or not, for which any race was found. -/
theorem options_only_filter (h : create rule K config tag = .ok d)
    (h' : create rule K config' tag' = .ok d')
    (hops : ops.map (Op.map (·.seenBy tag)) = ops'.map (Op.map (·.seenBy tag'))) :
    ((∀ t, (d'.run ops').state? t = (d.run ops).state? t) ∧
      (∀ lock, (d'.run ops').lockClock? lock = (d.run ops).lockClock? lock) ∧
      (∀ x, ((d'.run ops').entryAt? x).map (·.history) =
        ((d.run ops).entryAt? x).map (·.history)) ∧
      d'.results ops' = (d.results ops).map (Except.map (Value.under tag'))) ∧
    (config'.reporting = .every →
      (config.reporting = .every → ∀ x, (d'.run ops').raceCount x = (d.run ops).raceCount x) ∧
      (∀ x found, (d'.run ops').raceEvents x = found →
        (d'.run ops').raceCount x ≤ config'.maxEvents →
        (config.reporting = .every → (d.run ops).raceCount x = found.length ∧
          (d.run ops).raceEvents x = found.take config.maxEvents) ∧
        (config.reporting = .firstPerLocation → (d.run ops).raceCount x = min 1 found.length ∧
          (d.run ops).raceEvents x = found.take (min 1 config.maxEvents))) ∧
      (config.reporting = .firstPerLocation → (d.run ops).totalRaces =
        ((d'.run ops').monitored.filter fun x => (d'.run ops').raceCount x ≠ 0).card +
          (d'.dropped ops').countP fun r => r.count ≠ 0)) := by
  have htag : d.registry.tag = tag := by
    obtain ⟨-, rfl⟩ := create_eq_ok h
    rfl
  subst htag
  obtain ⟨halike, hresults, hdropped⟩ := (alike_create h h').run hops
  refine ⟨⟨halike.beside.state?_eq, halike.beside.lockClock?_eq, halike.history_eq, hresults⟩,
    fun hevery => ⟨fun hevery' x => ?_, fun x found hfound hroom => ?_, fun hfirst => ?_⟩⟩
  · rw [raceCount_eq, raceCount_eq, (halike.entryOf x).races.count_every hevery' hevery]
  · have hraces := halike.races_of_every hevery hroom
    rw [hfound] at hraces
    rw [raceCount_eq, raceEvents_eq, hraces]
    constructor
    · intro hevery
      rw [RaceRecord.reportAll_empty_every hevery]
      exact ⟨rfl, rfl⟩
    · intro hfirst
      rw [RaceRecord.reportAll_first hfirst]
      exact ⟨rfl, rfl⟩
  · rw [totalRaces_run h, halike.keptRaces_first hfirst, sum_count_first hdropped hfirst]

/-! ### Three readers -/

/-- Two threads write to one location, which is then forgotten. After that these two read it,
and a third thread writes to it, so that one write races with two reads at once. -/
def settled (tag : Nat) : List (Op Handle) :=
  [.start, .start, .start, .access ⟨tag, 1⟩ ⟨7, .write⟩, .access ⟨tag, 2⟩ ⟨7, .write⟩, .forget 7,
    .access ⟨tag, 1⟩ ⟨7, .read⟩, .access ⟨tag, 2⟩ ⟨7, .read⟩, .access ⟨tag, 3⟩ ⟨7, .write⟩]

theorem settled_filtered : ∃ d d' : Detector .epoch 3,
    create .epoch 3 ⟨.firstPerLocation, 5⟩ 0 = .ok d ∧ create .epoch 3 ⟨.every, 8⟩ 1 = .ok d' ∧
    (d'.run (settled 1)).raceEvents 7 = [⟨.readWrite, 7, 3, 1⟩, ⟨.readWrite, 7, 3, 2⟩] ∧
    (d.run (settled 0)).raceCount 7 = 1 ∧
    (d.run (settled 0)).raceEvents 7 = [⟨.readWrite, 7, 3, 1⟩] ∧
    (d.run (settled 0)).totalRaces = 2 := by
  have h : create .epoch 3 ⟨.firstPerLocation, 5⟩ 0 =
      .ok ⟨⟨.firstPerLocation, 5⟩, .empty 0, .empty, .empty, 0⟩ := rfl
  have h' : create .epoch 3 ⟨.every, 8⟩ 1 = .ok ⟨⟨.every, 8⟩, .empty 1, .empty, .empty, 0⟩ := rfl
  refine ⟨_, _, h, h', by decide, ?_⟩
  have hops : (settled 0).map (Op.map (·.seenBy 0)) = (settled 1).map (Op.map (·.seenBy 1)) := rfl
  obtain ⟨-, hreports⟩ := options_only_filter h h' hops
  obtain ⟨-, hlocation, htotal⟩ := hreports rfl
  obtain ⟨hcount, hevents⟩ :=
    (hlocation 7 [⟨.readWrite, 7, 3, 1⟩, ⟨.readWrite, 7, 3, 2⟩] (by decide) (by decide)).2 rfl
  exact ⟨hcount, hevents, (htotal rfl).trans (by decide)⟩

end Detector

end RaceWatch
