import RaceWatch.Detector
import Mathlib

/-!
What a detector keeps of one location. Whether a location is monitored makes no
difference to its entry, since one that is not has the neutral entry. So an entry only
changes when an access to its location passes its check or the location is forgotten.
-/

namespace RaceWatch

/-! ### Records -/

namespace RaceRecord

variable {config : Config}

/-- One report adds one event to those that are kept, or none. -/
theorem events_report (config : Config) (r : RaceRecord) (event : RaceEvent) :
    ∃ added, (r.report config event).events = r.events ++ added ∧ added.Sublist [event] := by
  rw [report]
  split
  · exact ⟨[], (List.append_nil _).symm, List.nil_sublist _⟩
  · dsimp only
    split
    · exact ⟨[event], rfl, List.Sublist.refl _⟩
    · exact ⟨[], (List.append_nil _).symm, List.nil_sublist _⟩

/-- The events that some reports add to those that are kept are among the reported
ones. -/
theorem events_reportAll (config : Config) (r : RaceRecord) (events : List RaceEvent) :
    ∃ added, (r.reportAll config events).events = r.events ++ added ∧ added.Sublist events := by
  induction events generalizing r with
  | nil => exact ⟨[], (List.append_nil _).symm, List.Sublist.refl _⟩
  | cons event rest ih =>
    obtain ⟨first, hfirst, hsub⟩ := events_report config r event
    obtain ⟨added, hadded, hsub'⟩ := ih (r.report config event)
    refine ⟨first ++ added, ?_, hsub.append hsub'⟩
    rw [reportAll, List.foldl_cons, ← reportAll, hadded, hfirst, List.append_assoc]

theorem reportAll_append (config : Config) (r : RaceRecord) (events events' : List RaceEvent) :
    r.reportAll config (events ++ events') = (r.reportAll config events).reportAll config events' :=
  List.foldl_append

/-- Whatever the options are, the first race of a location is counted. -/
theorem count_reportAll_eq_zero {r : RaceRecord} {events : List RaceEvent} :
    (r.reportAll config events).count = 0 ↔ r.count = 0 ∧ events = [] := by
  rw [count_reportAll, Nat.add_eq_zero_iff]
  refine and_congr_right fun hr => ?_
  cases events with
  | nil => simp [countedEach]
  | cons event rest => simp [countedEach, counted, suppresses, hr]

theorem count_report_of_every (hevery : config.reporting = .every) (r : RaceRecord)
    (event : RaceEvent) : (r.report config event).count = r.count + 1 := by
  rw [count_report, counted, suppresses, hevery]
  rfl

/-- Where every race counts, reports are counted one by one. -/
theorem count_reportAll_of_every (hevery : config.reporting = .every) (r : RaceRecord)
    (events : List RaceEvent) : (r.reportAll config events).count = r.count + events.length := by
  induction events generalizing r with
  | nil => rfl
  | cons event rest ih =>
    rw [reportAll, List.foldl_cons, ← reportAll, ih, count_report_of_every hevery,
      List.length_cons, Nat.add_assoc, Nat.add_comm 1]

/-- Where every race counts, a record counts all that is reported and keeps the first of
it. -/
theorem reportAll_every (hevery : config.reporting = .every) (all : List RaceEvent)
    {r : RaceRecord} (hr : r = ⟨all.length, all.take config.maxEvents⟩) (events : List RaceEvent) :
    r.reportAll config events =
      ⟨(all ++ events).length, (all ++ events).take config.maxEvents⟩ := by
  induction events generalizing r all with
  | nil => rw [hr, List.append_nil]; rfl
  | cons event rest ih =>
    rw [reportAll, List.foldl_cons, ← reportAll, ih (all ++ [event]), List.append_assoc]
    · rfl
    · have hnot : r.suppresses config = false := by simp [suppresses, hevery]
      -- Once the first of the events fill the record, one more does not change them.
      rw [report, hnot, hr, List.length_append]
      by_cases hlt : all.length < config.maxEvents
      · have hall : all.take config.maxEvents = all := List.take_of_length_le hlt.le
        have hnew : (all ++ [event]).take config.maxEvents = all ++ [event] :=
          List.take_of_length_le (by simpa using hlt)
        simp [hlt, hall, hnew]
      · have hle := Nat.le_of_not_lt hlt
        simp [hle, List.take_append_of_le_length hle]

end RaceRecord

/-! ### Entries -/

theorem Op.access_or_ne {ρ : Type} (op : Op ρ) :
    (∃ t a, op = .access t a) ∨ ∀ t a, op ≠ .access t a := by
  cases op with
  | access t a => exact .inl ⟨t, a, rfl⟩
  | start | fork | join | exit | acquire | release | forgetLock | init | forget =>
    exact .inr fun _ _ => by simp

namespace Detector

variable {rule : Rule} {K : Nat}

/-- The entry of a location, the neutral one if the location is not monitored. -/
def entryOf (d : Detector rule K) (x : Address) : Entry rule K := d.shadow.getD x (.neutral x)

theorem entryOf_of_entryAt? {d : Detector rule K} {x : Address} {entry : Entry rule K}
    (h : d.entryAt? x = some entry) : d.entryOf x = entry := by
  have h : d.shadow.get? x = some entry := h
  rw [entryOf, ShadowMemory.getD, h, Option.getD_some]

theorem raceCount_eq (d : Detector rule K) (x : Address) :
    d.raceCount x = (d.entryOf x).races.count := by
  simp only [raceCount, races?, entryAt?, entryOf, ShadowMemory.getD]
  cases d.shadow.get? x <;> rfl

theorem raceEvents_eq (d : Detector rule K) (x : Address) :
    d.raceEvents x = (d.entryOf x).races.events := by
  simp only [raceEvents, races?, entryAt?, entryOf, ShadowMemory.getD]
  cases d.shadow.get? x <;> rfl

theorem races?_getD (d : Detector rule K) (x : Address) :
    (d.races? x).getD .empty = (d.entryOf x).races := by
  simp only [races?, entryAt?, entryOf, ShadowMemory.getD]
  cases d.shadow.get? x <;> rfl

theorem config_step (d : Detector rule K) (op : Op Handle) :
    (d.step op).state.config = d.config := by
  cases op with
  | start | fork | join | exit | forgetLock | init | forget => rfl
  | acquire lock h | release lock h =>
    simp only [step, acquire, release, Reply.state_mapResult]
    split <;> rfl
  | access h a =>
    simp only [step, access, Reply.state_mapResult]
    repeat' split
    all_goals simp

/-- What an operation does not touch when it is refused. -/
structure Spares (d d' : Detector rule K) : Prop where
  registry_eq : d'.registry = d.registry
  locks_eq : d'.locks = d.locks
  entryOf_eq : ∀ x, d'.entryOf x = d.entryOf x

/-- An access of a thread in a state passes its check. -/
structure Passes (d : Detector rule K) (h : Handle) (a : Access) (s : ThreadState K)
    (checked : CheckedAccess rule K) (d' : Detector rule K) : Prop where
  state?_eq : d.state? h.thread = some s
  check_eq : (d.entryOf a.address).check d.config s a = .ok checked
  registry_eq : d'.registry = d.registry.put checked.thread
  locks_eq : d'.locks = d.locks
  entryOf_eq : ∀ x, d'.entryOf x = if x = a.address then checked.entry else d.entryOf x

theorem entryOf_monitor (d : Detector rule K) (y x : Address) :
    ({ d with shadow := d.shadow.monitor y (.neutral y) } : Detector rule K).entryOf x =
      d.entryOf x := by
  simp only [entryOf, ShadowMemory.getD, ShadowMemory.get?_monitor]
  by_cases h : y = x
  · subst h
    simp
  · rw [if_neg h]

/-- An access is refused, and then its location may only have come to be monitored, or it
passes its check. -/
theorem access_cases (d : Detector rule K) (h : Handle) (a : Access) :
    ((∃ error, (d.step (.access h a)).result = .error error) ∧
        d.Spares (d.step (.access h a)).state) ∨
      (d.step (.access h a)).result = .ok .unit ∧
        ∃ s checked, d.Passes h a s checked (d.step (.access h a)).state := by
  simp only [step, Reply.state_mapResult, Reply.result_mapResult]
  cases hl : d.registry.lookup h with
  | error e =>
    simp only [access, hl]
    exact .inl ⟨⟨_, rfl⟩, rfl, rfl, fun _ => rfl⟩
  | ok s =>
    cases ha : s.ensureAlive with
    | error e =>
      simp only [access, hl, ha]
      exact .inl ⟨⟨_, rfl⟩, rfl, rfl, d.entryOf_monitor a.address⟩
    | ok =>
      cases hc : (d.shadow.getD a.address (.neutral a.address)).check d.config s a with
      | error f =>
        simp only [access, hl, ha, hc, Reply.state_halt, Reply.result_halt]
        exact .inl ⟨⟨_, rfl⟩, rfl, rfl, d.entryOf_monitor a.address⟩
      | ok checked =>
        simp only [access, hl, ha, hc, Reply.state_done, Reply.result_done]
        refine .inr ⟨rfl, s, checked, (Registry.lookup_eq_ok.mp hl).2, hc, rfl, rfl, fun x => ?_⟩
        simp only [entryOf, ShadowMemory.getD, ShadowMemory.get?_put, ShadowMemory.get?_monitor]
        by_cases hx : a.address = x
        · subst hx
          simp
        · simp [hx, Ne.symm hx]

/-- What an access leaves of its location depends on its thread, the entry and the options. -/
theorem entryOf_access (d : Detector rule K) (h : Handle) (a : Access) :
    (d.step (.access h a)).state.entryOf a.address =
      match d.registry.lookup h with
      | .error _ => d.entryOf a.address
      | .ok s => match s.ensureAlive with
        | .error _ => d.entryOf a.address
        | .ok () => match (d.entryOf a.address).check d.config s a with
          | .error _ => d.entryOf a.address
          | .ok checked => checked.entry := by
  have hmonitor := d.entryOf_monitor a.address a.address
  have hentry : d.entryOf a.address = d.shadow.getD a.address (.neutral a.address) := rfl
  simp only [step, Reply.state_mapResult]
  cases hl : d.registry.lookup h with
  | error e => simp only [access, hl, Reply.state_fail]
  | ok s =>
    cases ha : s.ensureAlive with
    | error e => simp only [access, hl, ha, Reply.state_fail, hmonitor]
    | ok =>
      dsimp only
      rw [hentry]
      cases hc : (d.shadow.getD a.address (.neutral a.address)).check d.config s a with
      | error f => simp only [access, hl, ha, hc, Reply.state_halt, hmonitor, hentry]
      | ok checked =>
        simp only [access, hl, ha, hc, Reply.state_done]
        simp [entryOf, ShadowMemory.getD, ShadowMemory.get?_put]

/-- An access leaves the entries of all other locations as they are. -/
theorem entryOf_access_of_ne (d : Detector rule K) (h : Handle) {a : Access} {x : Address}
    (hx : x ≠ a.address) : (d.step (.access h a)).state.entryOf x = d.entryOf x := by
  rcases d.access_cases h a with ⟨-, hspares⟩ | ⟨-, s, checked, hpass⟩
  · exact hspares.entryOf_eq x
  · rw [hpass.entryOf_eq, if_neg hx]

/-- An operation that is not an access leaves all entries as they are, except that of a
location it forgets. -/
theorem entryOf_step (d : Detector rule K) {op : Op Handle} (hop : ∀ h a, op ≠ .access h a)
    (x : Address) :
    (d.step op).state.entryOf x = if op = .forget x then .neutral x else d.entryOf x := by
  cases op with
  | start | fork | join | exit | forgetLock => rfl
  | acquire lock h | release lock h =>
    simp only [step, acquire, release, Reply.state_mapResult, reduceCtorEq, if_false]
    split <;> rfl
  | access h a => exact absurd rfl (hop h a)
  | init y =>
    rw [if_neg (by simp)]
    exact d.entryOf_monitor y x
  | forget y =>
    simp only [step, forget, Reply.state_mapResult, Reply.state_mapState, entryOf,
      ShadowMemory.getD, ShadowMemory.get?_forget, Op.forget.injEq]
    by_cases h : y = x
    · simp [h]
    · simp [h]

end Detector

end RaceWatch
