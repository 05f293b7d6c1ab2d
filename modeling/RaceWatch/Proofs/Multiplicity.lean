import RaceWatch.Proofs.Agreement
import RaceWatch.Proofs.Omission
import RaceWatch.Proofs.Settled

/-!
How often the epoch rule counts. Where every race counts, an access that conflicts with the last
access before it and is not ordered after that one counts a race, also on a location that has
raced before, unless it is in the epoch of the last access of its kind. So an access that counts
under the precise rule counts under the epoch rule as well, with that same exception.
-/

namespace RaceWatch

open VectorClock

namespace Chronicle

variable {K n : Nat} {H H' : Chronicle} {config : Config} {x : Address} {visits : List Visit}
  {v w : Visit} {s : ThreadState K}

/-- A history remembers the last visit. -/
theorem Leaves.remembers_last {entry : Entry .epoch K} (hle : H.Leaves config x visits entry)
    (hlast : visits.getLast? = some w) : H.Remembers entry.history w := by
  cases hle with
  | neutral => simp at hlast
  | check before earlier checks =>
    rw [List.getLast?_concat] at hlast
    obtain rfl := Option.some.inj hlast
    exact (earlier ▸ before.epochTrace).remembers checks

section

variable {h : EpochHistory K} {f : Finding (EpochHistory K) K}
  (ht : H.EpochTrace (H.visits x v.position) h) (hc : H.Checks .epoch x v h s f)
  (hl : H.Legal .epoch K) (ho : H.NoOverflow)
include ht hc hl ho

/-- A visit that finds no race, although it is not in the epoch of the last one of its kind,
comes after each visit that it conflicts with and that is remembered. -/
theorem EpochTrace.ordered_of_not_repeats (hraces : f.races = []) (hnew : ¬ h.Repeats s v.kind)
    (hw : w ∈ H.visits x v.position) (hr : H.Remembers h w) (hconflict : Conflict w v) :
    H.HappensBefore w.position v.position := by
  obtain ⟨-, hout⟩ := ht.outcome hc
  generalize hk : v.kind = kind at hout hnew
  cases hout with
  | readAgain hsame => exact absurd hsame hnew
  | writeAgain hsame => exact absurd hsame hnew
  | read hread =>
    have hwrite : w.kind = .write := hconflict.2.resolve_right (by simp [hk])
    exact hc.happensBefore_of_known hl ho hw hr (fun _ => hread.write_known hraces)
      (by simp [hwrite])
  | write hwrite =>
    exact hc.happensBefore_of_known hl ho hw hr (fun _ => hwrite.write_known hraces)
      fun _ => hwrite.reads_known hraces w.thread

/-- A visit in the epoch of the last one of its kind comes after all that it conflicts with, as
long as these are ordered among themselves. -/
theorem EpochTrace.ordered_of_repeats (hcalm : H.Calm (H.visits x v.position))
    (hr : h.Repeats s v.kind) :
    ∀ w ∈ H.visits x v.position, Conflict w v → H.HappensBefore w.position v.position := by
  cases hk : v.kind with
  | read =>
    rw [hk] at hr
    exact ht.ordered_of_read hc hl ho hcalm hk hr
  | write =>
    rw [hk] at hr
    exact ht.ordered_of_write hc hl ho hcalm hk hr

end

theorem visits_eq_of_alike (h : H.Alike H') (x : Address) (n : Nat) :
    H.visits x n = H'.visits x n := by
  induction n with
  | zero => rfl
  | succ n ih =>
    have hget := h.getElem? n
    cases he : H[n]? with
    | none =>
      have he' : H'[n]? = none := by simpa [he, eq_comm] using hget
      rw [visits_succ_of_none he, visits_succ_of_none he', ih]
    | some e =>
      rw [he, Option.map_some, eq_comm, Option.map_eq_some_iff] at hget
      obtain ⟨e', he', hout⟩ := hget
      rw [visits_succ he, visits_succ he', ih, Event.revisit_of_outline hout.symm]

end Chronicle

namespace Detector

variable {K : Nat} {d : Detector .epoch K} {config : Config} {tag : Nat}

/-- An access between two states of a detector counts a race, unless it is in the epoch of the
last one of its kind. Then it counts none, and its location has raced before. -/
def CountsUnlessRepeated (d d' : Detector .epoch K) (t : Handle) (a : Access) : Prop :=
  ∃ s, d.state? t.thread = some s ∧
    (¬ EpochHistory.Repeats (d.entryOf a.address).history s a.kind →
      d.raceCount a.address < d'.raceCount a.address) ∧
    (EpochHistory.Repeats (d.entryOf a.address).history s a.kind →
      d'.raceCount a.address = d.raceCount a.address ∧ 0 < d.raceCount a.address)

/-- An access that conflicts with the last one before it and is not ordered after that one. -/
theorem counts_of_unordered (h : create .epoch K config tag = .ok d)
    (hevery : config.reporting = .every) (ops : List (Op Handle))
    (ho : (d.chronicle ops).NoOverflow) {n : Nat} {t : Handle} {a : Access} {w : Visit}
    (hn : ops[n]? = some (.access t a))
    (hok : ((d.after ops n).step (.access t a)).result = .ok .unit)
    (hlast : ((d.chronicle ops).visits a.address n).getLast? = some w)
    (hconflict : Chronicle.Conflict w ⟨n, t.thread, a.kind⟩)
    (hunordered : ¬ (d.chronicle ops).HappensBefore w.position n) :
    CountsUnlessRepeated (d.after ops n) (d.after ops (n + 1)) t a := by
  have hl := legal_chronicle h ops
  have hle := leaves_entryOf h ops a.address n
  have hw := List.mem_of_getLast? hlast
  obtain ⟨⟨error, herror⟩, -⟩ | ⟨hr, s, checked, hpass⟩ := (d.after ops n).access_cases t a
  · simp [hok] at herror
  obtain ⟨f, hentry, -, hc⟩ := checks_of_passes h hn hr hpass
  have hfound : (d.after ops (n + 1)).entryOf a.address =
      ((d.after ops n).entryOf a.address).found config a.address f := by
    rw [after_succ d hn, hpass.entryOf_eq, if_pos rfl, hentry]
  have hcount : (d.after ops (n + 1)).raceCount a.address =
      (d.after ops n).raceCount a.address + f.races.length := by
    rw [raceCount_eq, raceCount_eq, hfound, Entry.found,
      RaceRecord.count_reportAll_of_every hevery, Entry.eventsOf, List.length_map]
  refine ⟨s, hpass.state?_eq, fun hnew => ?_, fun hrepeats => ⟨?_, ?_⟩⟩
  · rw [hcount]
    refine Nat.lt_add_of_pos_right (List.length_pos_iff.mpr fun hraces => hunordered ?_)
    exact hle.epochTrace.ordered_of_not_repeats hc hl ho hraces hnew hw (hle.remembers_last hlast)
      hconflict
  · obtain ⟨note, hsame⟩ := EpochHistory.check_of_repeats (a := a) hrepeats
    rw [hcount, Except.ok.inj (hc.check_eq.symm.trans hsame)]
    rfl
  -- Without a race before, the access would be ordered after the last one.
  · by_contra hzero
    have hzero : ((d.after ops n).entryOf a.address).races.count = 0 := by
      rw [← raceCount_eq]
      omega
    have hcalm := ((hle.calm_iff hl ho).1 hzero).2
    exact hunordered (hle.epochTrace.ordered_of_repeats hc hl ho hcalm hrepeats w hw hconflict)

/-- Under the precise rule only an access that races with the last one before it counts. -/
theorem exists_race_of_raceCount_lt {p : Detector .precise K}
    (h : create .precise K config tag = .ok p) (ops : List (Op Handle))
    (ho : (p.chronicle ops).NoOverflow) {n : Nat} {t : Handle} {a : Access}
    (hn : ops[n]? = some (.access t a))
    (hlt : (p.after ops n).raceCount a.address < (p.after ops (n + 1)).raceCount a.address) :
    ((p.after ops n).step (.access t a)).result = .ok .unit ∧
      ∃ w, ((p.chronicle ops).visits a.address n).getLast? = some w ∧
        Chronicle.Conflict w ⟨n, t.thread, a.kind⟩ ∧
          ¬ (p.chronicle ops).HappensBefore w.position n := by
  rw [raceCount_eq, raceCount_eq, after_succ p hn] at hlt
  rcases (p.after ops n).access_cases t a with ⟨-, hspares⟩ | ⟨hr, s, checked, hpass⟩
  · rw [hspares.entryOf_eq] at hlt
    exact absurd hlt (Nat.lt_irrefl _)
  obtain ⟨f, hentry, -, hc⟩ := checks_of_passes h hn hr hpass
  have hevents := (leaves_entryOf h ops a.address n).eventsOf_eq hc (legal_chronicle h ops) ho rfl
  have hne : Entry.eventsOf f a.address ≠ [] := by
    intro hnil
    rw [hpass.entryOf_eq, if_pos rfl, hentry, Entry.found, hnil] at hlt
    exact absurd hlt (Nat.lt_irrefl _)
  refine ⟨hr, ?_⟩
  cases hlast : ((p.chronicle ops).visits a.address n).getLast? with
  | none =>
    rw [hlast] at hevents
    exact absurd hevents hne
  | some w =>
    refine ⟨w, rfl, ?_⟩
    by_contra hnot
    have hnone : (p.chronicle ops).race? a.address w ⟨n, t.thread, a.kind⟩ = none :=
      Chronicle.race?_eq_none.mpr fun hconflict => by_contra fun hb => hnot ⟨hconflict, hb⟩
    rw [hlast, Option.bind_some, hnone] at hevents
    exact absurd hevents hne

/-- Where two runs are alike, an access that succeeds in one of them succeeds in the other. -/
theorem result_access_of_alike {rule rule' : Rule} {d : Detector rule K} {d' : Detector rule' K}
    {ops ops' : List (Op Handle)} (halike : (d.chronicle ops).Alike (d'.chronicle ops')) {n : Nat}
    {t t' : Handle} {a a' : Access} (hn : ops[n]? = some (.access t a))
    (hn' : ops'[n]? = some (.access t' a'))
    (hok : ((d'.after ops' n).step (.access t' a')).result = .ok .unit) :
    ((d.after ops n).step (.access t a)).result = .ok .unit := by
  have hget := halike.getElem? n
  rw [getElem?_chronicle, getElem?_chronicle, hn, hn'] at hget
  simp only [Option.map_some, hok] at hget
  have heff := (Prod.mk.inj (Option.some.inj hget)).2
  rcases (d.after ops n).access_cases t a with ⟨⟨error, herror⟩, -⟩ | ⟨hr, -⟩
  · rw [herror, Event.effective_of_access rfl, Event.effective_of_access rfl] at heff
    simp [Event.succeeded] at heff
  · exact hr

/-- Where every race counts, the epoch rule counts one on each access that conflicts with the
last access before it and is not ordered after that one, also on a location that has raced
before. So it counts one on each access on which the precise rule does. The one exception is an
access in the epoch of the last one of its kind, which is only possible after a race. -/
theorem adjacent_races_counted (h : create .epoch K config tag = .ok d)
    (hevery : config.reporting = .every) (ops : List (Op Handle))
    (ho : (d.chronicle ops).NoOverflow) :
    (∀ n t a w, ops[n]? = some (.access t a) →
      ((d.after ops n).step (.access t a)).result = .ok .unit →
      ((d.chronicle ops).visits a.address n).getLast? = some w →
      Chronicle.Conflict w ⟨n, t.thread, a.kind⟩ →
      ¬ (d.chronicle ops).HappensBefore w.position n →
      CountsUnlessRepeated (d.after ops n) (d.after ops (n + 1)) t a) ∧
    ∀ config' tag' (p : Detector .precise K) ops', create .precise K config' tag' = .ok p →
      ops.map (Op.map (·.seenBy tag)) = ops'.map (Op.map (·.seenBy tag')) →
      (p.chronicle ops').NoOverflow → ∀ n t a, ops[n]? = some (.access t a) →
      (p.after ops' n).raceCount a.address < (p.after ops' (n + 1)).raceCount a.address →
      CountsUnlessRepeated (d.after ops n) (d.after ops (n + 1)) t a := by
  refine ⟨fun n t a w hn hok hlast hconflict hunordered =>
    counts_of_unordered h hevery ops ho hn hok hlast hconflict hunordered,
    fun config' tag' p ops' hp hops hpo n t a hn hlt => ?_⟩
  have halike := chronicle_alike h hp hops ho hpo
  have hnth : ops[n]?.map (Op.map (·.seenBy tag)) = ops'[n]?.map (Op.map (·.seenBy tag')) := by
    rw [← List.getElem?_map, ← List.getElem?_map, hops]
  rw [hn, Option.map_some, eq_comm, Option.map_eq_some_iff] at hnth
  obtain ⟨op', hn', hseen⟩ := hnth
  obtain ⟨t', rfl, ht⟩ := Op.map_eq_access.mp hseen
  have hthread : t'.thread = t.thread := (Prod.mk.inj ht).2
  obtain ⟨hok', w, hlast, hconflict, hunordered⟩ := exists_race_of_raceCount_lt hp ops' hpo hn' hlt
  rw [← Chronicle.visits_eq_of_alike halike] at hlast
  rw [← halike.happensBefore_iff] at hunordered
  rw [hthread] at hconflict
  exact counts_of_unordered h hevery ops ho hn (result_access_of_alike halike hn hn' hok') hlast
    hconflict hunordered

/-- The write of one thread is counted after the write of another one. -/
theorem counted_clash :
    CountsUnlessRepeated ((forThree .epoch).after clash 3) ((forThree .epoch).after clash 4)
      ⟨0, 2⟩ ⟨7, .write⟩ := by
  obtain ⟨-, hprecise⟩ := adjacent_races_counted (create_forThree .epoch) rfl clash (by decide)
  exact hprecise .default 0 (forThree .precise) clash (create_forThree .precise) rfl (by decide) 3
    ⟨0, 2⟩ ⟨7, .write⟩ rfl (by decide)

/-- On a location that has raced, a read that is not ordered after the write before it is not
counted if it is in the epoch of the last read. -/
theorem readAgain_not_counted : ∃ d : Detector .epoch 3, create .epoch 3 .default 0 = .ok d ∧
    (d.chronicle readAgain).NoOverflow ∧
    ((d.after readAgain 5).step (.access ⟨0, 1⟩ ⟨7, .read⟩)).result = .ok .unit ∧
    ((d.chronicle readAgain).visits 7 5).getLast? = some ⟨4, 2, .write⟩ ∧
    ¬ (d.chronicle readAgain).HappensBefore 4 5 ∧
    (d.after readAgain 5).raceCount 7 = 1 ∧ (d.after readAgain 6).raceCount 7 = 1 := by
  refine ⟨forThree .epoch, create_forThree .epoch, by decide, by decide, by decide, fun hb => ?_,
    by decide, by decide⟩
  have hle := time_mono (hb.stamp_le (legal_chronicle (create_forThree .epoch) readAgain)) 2
  exact absurd hle (by decide)

end Detector

end RaceWatch
