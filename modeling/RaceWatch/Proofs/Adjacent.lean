import RaceWatch.Proofs.Provenance

/-!
What the precise rule counts. It compares each visit with the one before, whole clocks
with each other. The new visit can never happen before the old one, since it is made in
an event that nobody else knows of yet. So the two clocks are concurrent exactly if the
old visit does not happen before the new one.
-/

namespace RaceWatch

open VectorClock

theorem zip_tail_concat {α : Type} (l : List α) (a : α) :
    (l ++ [a]).zip (l ++ [a]).tail = l.zip l.tail ++ (l.getLast?.map fun b => (b, a)).toList := by
  induction l with
  | nil => rfl
  | cons b rest ih =>
    cases rest with
    | nil => rfl
    | cons c rest => simpa [List.getLast?_cons_cons] using ih

namespace Chronicle

variable {K : Nat} {H : Chronicle} {config : Config} {x : Address} {n : Nat}
  {visits : List Visit} {v w : Visit} {s : ThreadState K} {h : PreciseHistory K}
  {f : Finding (PreciseHistory K) K}

open Classical in
/-- The race that a visit forms with an earlier one, as it is reported. -/
noncomputable def race? (H : Chronicle) (x : Address) (w v : Visit) : Option RaceEvent :=
  if w.thread ≠ v.thread ∧ ¬ H.HappensBefore w.position v.position then
    (RaceKind.between? w.kind v.kind).map fun kind => ⟨kind, x, v.thread, w.thread⟩
  else none

/-- The races between visits of which one follows directly on the other, in order. -/
noncomputable def adjacentRaces (H : Chronicle) (x : Address) (visits : List Visit) :
    List RaceEvent :=
  (visits.zip visits.tail).filterMap fun (w, v) => H.race? x w v

theorem adjacentRaces_concat (visits : List Visit) (v : Visit) :
    H.adjacentRaces x (visits ++ [v]) =
      H.adjacentRaces x visits ++ (visits.getLast?.bind fun w => H.race? x w v).toList := by
  rw [adjacentRaces, zip_tail_concat, List.filterMap_append, ← adjacentRaces]
  cases visits.getLast? with
  | none => rfl
  | some w => cases hr : H.race? x w v <;> simp [hr]

/-- What the thread of a new visit knows of itself is new to all others. -/
theorem Checks.not_stamp_le (hc : H.Checks .precise x v h s f) (hl : H.Legal .precise K)
    (hw : w ∈ H.visits x v.position) :
    ¬ f.thread.clock ≤ H.stamp .precise K w.position := by
  intro hle
  obtain ⟨e, he, hact⟩ := (made_of_mem hw).exists_at
  have hknown : (H.stamp .precise K w.position).time v.thread ≤ s.clock.time v.thread := by
    have hthread := stamp_le_knownAt_thread hl he (.inl hact) (position_lt_of_mem hw)
    rw [hc.clock_eq]
    exact (time_mono hthread v.thread).trans (owned_knownAt v.position _ _)
  have hticked : f.thread.clock.time v.thread = s.clock.time v.thread + 1 := by
    rcases hc.thread_cases with ⟨hrule, -⟩ | ⟨-, -, hthread⟩
    · exact Rule.noConfusion hrule
    · rw [hthread, ThreadState.next, hc.sound.id_eq, time_advance_self hc.sound.fits]
  have hback := time_mono hle v.thread
  omega

/-- The clocks of two visits are concurrent exactly if the earlier one does not happen
before the later one. -/
theorem Checks.concurrent_iff (hc : H.Checks .precise x v h s f) (hl : H.Legal .precise K)
    (ho : H.NoOverflow) (hw : w ∈ H.visits x v.position) :
    (H.stamp .precise K w.position).Concurrent f.thread.clock ↔
      ¬ H.HappensBefore w.position v.position := by
  obtain ⟨e, he, hact⟩ := (made_of_mem hw).exists_at
  obtain ⟨e', he', hact'⟩ := hc.made.exists_at
  rw [happensBefore_iff_stamp_le hl ho he he' hact hact' (position_lt_of_mem hw), hc.stamp_eq]
  exact and_iff_left (hc.not_stamp_le hl hw)

/-- What a check reports is the race of the visit with the one before. -/
theorem Leaves.eventsOf_eq {entry : Entry .precise K} (hle : H.Leaves config x visits entry)
    (hc : H.Checks .precise x v entry.history s f) (hl : H.Legal .precise K) (ho : H.NoOverflow)
    (hvisits : visits = H.visits x v.position) :
    Entry.eventsOf f x = (visits.getLast?.bind fun w => H.race? x w v).toList := by
  rw [Entry.eventsOf, hle.precise_races hc, hc.sound_thread.id_eq]
  cases hlast : visits.getLast? with
  | none => rfl
  | some w =>
    have hw : w ∈ H.visits x v.position := hvisits ▸ List.mem_of_getLast? hlast
    have hiff := hc.concurrent_iff hl ho hw
    simp only [Option.elim_some, Option.bind_some, PreciseHistory.raceWith, lastAccess,
      hc.sound_thread.id_eq, race?]
    cases RaceKind.between? w.kind v.kind with
    | none => simp
    | some kind =>
      by_cases hrace : w.thread ≠ v.thread ∧ ¬ H.HappensBefore w.position v.position
      · simp [hrace, hiff]
      · simp only [hiff, hrace]
        rfl

/-- The record of a location is what the options make of the races between its adjacent
visits. -/
theorem Leaves.races_eq_reportAll {entry : Entry .precise K}
    (hle : H.Leaves config x visits entry) (hl : H.Legal .precise K) (ho : H.NoOverflow) :
    entry.races = RaceRecord.empty.reportAll config (H.adjacentRaces x visits) := by
  induction hle with
  | neutral => rfl
  | check before earlier checks ih =>
    rw [adjacentRaces_concat, ← before.eventsOf_eq checks hl ho earlier,
      RaceRecord.reportAll_append, ← ih]
    rfl

/-- Where every race counts, the record of a location holds the races between its
adjacent visits. -/
theorem Leaves.races_eq {entry : Entry .precise K} (hle : H.Leaves config x visits entry)
    (hevery : config.reporting = .every) (hl : H.Legal .precise K) (ho : H.NoOverflow) :
    entry.races = ⟨(H.adjacentRaces x visits).length,
      (H.adjacentRaces x visits).take config.maxEvents⟩ := by
  -- Induction on the visits, of which each adds the race with the one before.
  induction hle with
  | neutral => simp [adjacentRaces, Entry.neutral, RaceRecord.empty]
  | check before earlier checks ih =>
    rw [adjacentRaces_concat, ← before.eventsOf_eq checks hl ho earlier]
    exact RaceRecord.reportAll_every hevery _ ih _

end Chronicle

namespace Detector

variable {K : Nat} {d : Detector .precise K} {config : Config} {tag : Nat}

/-- The exact meaning of the count of the precise rule. Where every race is to be
counted, the races of a location are those between adjacent accesses of different
threads, one of them a write, of which the first does not happen before the second. All
of them are counted and the first of them are kept, as many as the options allow. -/
theorem precise_races_eq (h : create .precise K config tag = .ok d)
    (hevery : config.reporting = .every) (ops : List (Op Handle))
    (ho : (d.chronicle ops).NoOverflow) (x : Address) (n : Nat) :
    (d.after ops n).raceCount x =
        ((d.chronicle ops).adjacentRaces x ((d.chronicle ops).visits x n)).length ∧
      (d.after ops n).raceEvents x =
        ((d.chronicle ops).adjacentRaces x ((d.chronicle ops).visits x n)).take
          config.maxEvents := by
  have hraces := (leaves_entryOf h ops x n).races_eq hevery (legal_chronicle h ops) ho
  rw [raceCount_eq, raceEvents_eq, hraces]
  exact ⟨rfl, rfl⟩

theorem adjacentRaces_clash : ((forThree .precise).chronicle clash).adjacentRaces 7
    (((forThree .precise).chronicle clash).visits 7 4) = [⟨.writeWrite, 7, 2, 1⟩] := by
  obtain ⟨hcount, hevents⟩ :=
    precise_races_eq (create_forThree .precise) rfl clash (by decide) 7 4
  have hone : ((forThree .precise).after clash 4).raceCount 7 = 1 := by decide
  have hevent : ((forThree .precise).after clash 4).raceEvents 7 = [⟨.writeWrite, 7, 2, 1⟩] := by
    decide
  rw [hone] at hcount
  rw [hevent, List.take_of_length_le (by rw [← hcount]; decide)] at hevents
  exact hevents.symm

/-- The four sources of order do not suffice. Of two adjacent accesses that they leave
unordered the second one is not counted. -/
theorem relay_not_adjacent : ∃ d : Detector .precise 3, create .precise 3 .default 0 = .ok d ∧
    (d.chronicle relay).NoOverflow ∧ (d.after relay 7).raceCount 7 = 0 ∧
    (d.chronicle relay).visits 7 7 = [⟨3, 1, .write⟩, ⟨6, 2, .write⟩] ∧
    ¬ (d.chronicle relay).Precedes 3 6 :=
  ⟨forThree .precise, create_forThree .precise, noOverflow_relay .precise, by decide, by decide,
    not_precedes_relay .precise⟩

end Detector

end RaceWatch
