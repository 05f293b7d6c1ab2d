import RaceWatch.Proofs.Visit

/-!
What a rule remembers of a location comes from the visits of that location. So each race
that a check finds is one with an earlier visit, and the two are not ordered. This needs
no assumption on the run: it may have seen races and overflows before.
-/

namespace RaceWatch

open VectorClock

/-- The last visit that wrote. -/
def lastWrite? (visits : List Visit) : Option Visit :=
  (visits.filter (·.kind.isWrite)).getLast?

theorem lastWrite?_append_write {visits : List Visit} {v : Visit} (h : v.kind = .write) :
    lastWrite? (visits ++ [v]) = some v := by
  simp [lastWrite?, h, AccessKind.isWrite]

theorem lastWrite?_append_read {visits : List Visit} {v : Visit} (h : v.kind = .read) :
    lastWrite? (visits ++ [v]) = lastWrite? visits := by
  simp [lastWrite?, h, AccessKind.isWrite]

theorem mem_of_lastWrite? {visits : List Visit} {v : Visit} (h : lastWrite? visits = some v) :
    v ∈ visits ∧ v.kind = .write := by
  obtain ⟨hmem, hwrite⟩ := List.mem_filter.mp (List.mem_of_getLast? h)
  refine ⟨hmem, ?_⟩
  cases hk : v.kind with
  | read => simp [hk, AccessKind.isWrite] at hwrite
  | write => rfl

namespace Chronicle

variable {rule : Rule} {K : Nat} {H : Chronicle} {config : Config} {x : Address}
  {visits : List Visit} {v w : Visit} {kind : RaceKind} {s : ThreadState K}

/-- The event of its thread in which a visit was made. -/
def timeOf (rule : Rule) (K : Nat) (H : Chronicle) (v : Visit) : Nat :=
  (H.stamp rule K v.position).time v.thread

/-- A visit races with an earlier one. -/
structure Race (H : Chronicle) (w v : Visit) (kind : RaceKind) : Prop where
  distinct : w.thread ≠ v.thread
  between : RaceKind.between? w.kind v.kind = some kind
  unordered : ¬ H.HappensBefore w.position v.position

/-- Visits of one thread are ordered. -/
theorem happensBefore_of_thread_eq (hw : w ∈ H.visits x v.position) (hv : H.Made x v)
    (ht : w.thread = v.thread) : H.HappensBefore w.position v.position := by
  obtain ⟨e, he, hact⟩ := (made_of_mem hw).exists_at
  obtain ⟨f, hf, hact'⟩ := hv.exists_at
  exact .single (.edge (.program (position_lt_of_mem hw) he hf hact (ht ▸ hact')))

/-- Unordered visits are visits of different threads. -/
theorem race_of_unordered (hw : w ∈ H.visits x v.position) (hv : H.Made x v)
    (hb : RaceKind.between? w.kind v.kind = some kind)
    (hu : ¬ H.HappensBefore w.position v.position) : H.Race w v kind where
  distinct ht := hu (happensBefore_of_thread_eq hw hv ht)
  between := hb
  unordered := hu

/-! ### The epoch rule -/

section Epoch

variable {h : EpochHistory K} {f : Finding (EpochHistory K) K}

theorem Checks.time_eq (hc : H.Checks .epoch x v h s f) (t : Nat) :
    (H.stamp .epoch K v.position).time t = s.clock.time t := by
  rw [hc.stamp_eq]
  rcases hc.thread_cases with ⟨-, hthread⟩ | ⟨hrule, -⟩
  · rw [hthread]
  · exact Rule.noConfusion hrule

/-- An epoch names the event in which a visit was made. -/
structure Marks (K : Nat) (H : Chronicle) (v : Visit) (e : Epoch) : Prop where
  thread_eq : e.thread = v.thread
  clock_eq : e.clock = H.timeOf .epoch K v

theorem Checks.marks (hc : H.Checks .epoch x v h s f) : H.Marks K v s.epoch where
  thread_eq := hc.sound.thread_epoch hc.capacity
  clock_eq := by rw [hc.sound.clock_epoch hc.capacity, timeOf, hc.time_eq]

/-- What the epoch rule remembers of a location comes from its visits: the last write,
and of each thread a read. -/
structure EpochTrace (H : Chronicle) (visits : List Visit) (h : EpochHistory K) : Prop where
  inRange : h.InRange
  exists_write : h.write.thread ≠ noThread →
    ∃ w, lastWrite? visits = some w ∧ H.Marks K w h.write
  exists_read : ∀ u, 0 < h.readTime u →
    ∃ w ∈ visits, w.kind = .read ∧ w.thread = u ∧ H.timeOf .epoch K w = h.readTime u

theorem epochTrace_neutral : H.EpochTrace [] (EpochHistory.neutral : EpochHistory K) where
  inRange := ⟨Epoch.thread_empty.le.trans (Nat.zero_le _),
    Epoch.thread_empty.le.trans (Nat.zero_le _)⟩
  exists_write h := absurd Epoch.thread_empty h
  exists_read u h := by
    rw [EpochHistory.readTime_of_empty rfl] at h
    exact absurd h (Nat.lt_irrefl 0)

theorem EpochTrace.outcome (ht : H.EpochTrace visits h) (hc : H.Checks .epoch x v h s f) :
    f.history.InRange ∧ h.Outcome v.thread s v.kind f :=
  ht.inRange.outcome hc.sound hc.capacity hc.check_eq

theorem EpochTrace.append (ht : H.EpochTrace visits h) (hc : H.Checks .epoch x v h s f) :
    H.EpochTrace (visits ++ [v]) f.history := by
  obtain ⟨hrange, hout⟩ := ht.outcome hc
  have hv : v ∈ visits ++ [v] := List.mem_append_right _ List.mem_cons_self
  have hold {u : Nat} (hpos : 0 < h.readTime u) : ∃ w ∈ visits ++ [v], w.kind = .read ∧
      w.thread = u ∧ H.timeOf .epoch K w = h.readTime u := by
    obtain ⟨w, hw, hkind, hthread, htime⟩ := ht.exists_read u hpos
    exact ⟨w, List.mem_append_left _ hw, hkind, hthread, htime⟩
  generalize hk : v.kind = kind at hout
  cases hout with
  -- The last write of the visits stays the same, and so does all that is remembered.
  | readAgain _ hhistory =>
    rw [hhistory]
    refine ⟨ht.inRange, fun h0 => ?_, fun u => hold⟩
    rw [lastWrite?_append_read hk]
    exact ht.exists_write h0
  | writeAgain hsame hhistory =>
    rw [hhistory]
    exact ⟨ht.inRange, fun _ => ⟨v, lastWrite?_append_write hk, hsame ▸ hc.marks⟩, fun u => hold⟩
  | read hnew =>
    refine ⟨hrange, fun h0 => ?_, fun u hpos => ?_⟩
    · rw [hnew.write_eq] at h0 ⊢
      rw [lastWrite?_append_read hk]
      exact ht.exists_write h0
    · by_cases hu : u = v.thread
      · subst hu
        exact ⟨v, hv, hk, rfl, by rw [timeOf, hc.time_eq, hnew.readTime_self]⟩
      · rcases hnew.readTime_eq u hu with heq | ⟨hzero, -⟩
        · rw [heq] at hpos ⊢
          exact hold hpos
        · omega
  | write hnew =>
    refine ⟨hrange, fun _ => ⟨v, lastWrite?_append_write hk, hnew.write_eq ▸ hc.marks⟩,
      fun u hpos => ?_⟩
    rcases hnew.readTime_eq with heq | hzero
    · rw [heq u] at hpos ⊢
      exact hold hpos
    · rw [hzero u] at hpos
      omega

theorem Leaves.epochTrace {entry : Entry .epoch K} (h : H.Leaves config x visits entry) :
    H.EpochTrace visits entry.history := by
  induction h with
  | neutral => exact epochTrace_neutral
  | check _ _ checks ih => exact ih.append checks

/-- Whoever comes after a visit knows of its event. -/
theorem Checks.unordered_of_time_lt (hc : H.Checks .epoch x v h s f) (hl : H.Legal .epoch K)
    (hlt : s.clock.time w.thread < H.timeOf .epoch K w) :
    ¬ H.HappensBefore w.position v.position := by
  intro hb
  have hle := time_mono (hb.stamp_le hl) w.thread
  rw [hc.time_eq] at hle
  exact Nat.not_le_of_lt hlt hle

/-- A race that the epoch rule finds is one with an earlier visit, and unless that is a
read it is the last write. -/
theorem EpochTrace.race (ht : H.EpochTrace visits h) (hl : H.Legal .epoch K)
    (hc : H.Checks .epoch x v h s f) (hvisits : visits = H.visits x v.position) {u : Nat}
    (hrace : (kind, u) ∈ f.races) :
    ∃ w ∈ visits, w.thread = u ∧ H.Race w v kind ∧
      (kind ≠ .readWrite → lastWrite? visits = some w) := by
  obtain ⟨-, hout⟩ := ht.outcome hc
  subst hvisits
  -- If the thread does not know the epoch kept of the last write, the two race.
  have hwrite (hb : RaceKind.between? .write v.kind = some kind)
      (hk : ¬ h.write.KnownTo s.clock) :
      ∃ w ∈ H.visits x v.position, w.thread = h.write.thread ∧ H.Race w v kind ∧
        (kind ≠ .readWrite → lastWrite? (H.visits x v.position) = some w) := by
    obtain ⟨h0, hlt⟩ := not_or.mp hk
    obtain ⟨w, hw, hmarks⟩ := ht.exists_write h0
    obtain ⟨hmem, hkind⟩ := mem_of_lastWrite? hw
    rw [hmarks.thread_eq, hmarks.clock_eq, Nat.not_le] at hlt
    exact ⟨w, hmem, hmarks.thread_eq.symm, race_of_unordered hmem hc.made (hkind ▸ hb)
      (hc.unordered_of_time_lt hl hlt), fun _ => hw⟩
  generalize hk : v.kind = access at hout
  cases hout with
  | readAgain _ _ hraces => simp [hraces] at hrace
  | writeAgain _ _ hraces => simp [hraces] at hrace
  | read hnew =>
    rw [hnew.races_eq] at hrace
    by_cases hknown : h.write.KnownTo s.clock
    · simp [hknown] at hrace
    · obtain ⟨rfl, rfl⟩ : kind = .writeRead ∧ u = h.write.thread := by simpa [hknown] using hrace
      exact hwrite (by rw [hk]; rfl) hknown
  | write hnew =>
    rcases (hnew.mem_races kind u).mp hrace with ⟨rfl, rfl, hknown⟩ | ⟨rfl, hlt⟩
    · exact hwrite (by rw [hk]; rfl) hknown
    · obtain ⟨w, hmem, hkind, rfl, htime⟩ := ht.exists_read u (Nat.zero_lt_of_lt hlt)
      exact ⟨w, hmem, rfl, race_of_unordered hmem hc.made (by rw [hkind, hk]; rfl)
        (hc.unordered_of_time_lt hl (htime ▸ hlt)), fun hne => absurd rfl hne⟩

end Epoch

/-! ### The precise rule -/

section Precise

variable {h : PreciseHistory K} {f : Finding (PreciseHistory K) K}

/-- What the precise rule remembers of a visit. -/
def lastAccess (K : Nat) (H : Chronicle) (v : Visit) : LastAccess K :=
  ⟨v.thread, v.kind, H.stamp .precise K v.position⟩

/-- The precise rule remembers the visit and compares it with the one it remembered
before. -/
theorem Checks.precise_eq (hc : H.Checks .precise x v h s f) :
    f.history = ⟨some (H.lastAccess K v)⟩ ∧
      f.races = h.last?.elim [] fun prior => PreciseHistory.raceWith prior f.thread v.kind := by
  obtain ⟨hhistory, hraces⟩ := PreciseHistory.check_eq_ok hc.check_eq
  refine ⟨?_, hraces⟩
  rw [hhistory, lastAccess, hc.stamp_eq, hc.sound_thread.id_eq]

theorem Leaves.precise_history {entry : Entry .precise K} (h : H.Leaves config x visits entry) :
    entry.history = (⟨visits.getLast?.map (H.lastAccess K)⟩ : PreciseHistory K) := by
  cases h with
  | neutral => rfl
  | check _ _ checks => rw [Entry.found, checks.precise_eq.1, List.getLast?_concat, Option.map_some]

/-- The races with the last visit before, if there is one. -/
theorem Leaves.precise_races {entry : Entry .precise K} (hle : H.Leaves config x visits entry)
    (hc : H.Checks .precise x v entry.history s f) :
    f.races = visits.getLast?.elim [] fun w =>
      PreciseHistory.raceWith (H.lastAccess K w) f.thread v.kind := by
  rw [hc.precise_eq.2, hle.precise_history]
  cases visits.getLast? <;> rfl

theorem mem_raceWith {t : ThreadState K} {kind : AccessKind} {race : RaceKind} {u : Nat} :
    (race, u) ∈ PreciseHistory.raceWith (H.lastAccess K w) t kind ↔
      RaceKind.between? w.kind kind = some race ∧ w.thread = u ∧ w.thread ≠ t.id ∧
        (H.stamp .precise K w.position).Concurrent t.clock := by
  rw [PreciseHistory.raceWith, lastAccess]
  cases RaceKind.between? w.kind kind with
  | none => simp
  | some race' =>
    dsimp only
    split <;> grind

end Precise

/-! ### Either rule -/

/-- A race that a check finds is one with an earlier visit: under the precise rule with
the last one, and under the epoch rule with the last write unless it is with a read. -/
theorem Leaves.race {entry : Entry rule K} {f : Finding (rule.History K) K}
    (hle : H.Leaves config x visits entry) (hl : H.Legal rule K)
    (hc : H.Checks rule x v entry.history s f) (hvisits : visits = H.visits x v.position) {u : Nat}
    (hrace : (kind, u) ∈ f.races) :
    ∃ w ∈ visits, w.thread = u ∧ H.Race w v kind ∧
      (rule = .epoch → kind ≠ .readWrite → lastWrite? visits = some w) ∧
      (rule = .precise → visits.getLast? = some w) := by
  cases rule with
  | epoch =>
    obtain ⟨w, hmem, hthread, hw, hlast⟩ := hle.epochTrace.race hl hc hvisits hrace
    exact ⟨w, hmem, hthread, hw, fun _ => hlast, fun hrule => Rule.noConfusion hrule⟩
  | precise =>
    rw [hle.precise_races hc] at hrace
    cases hlast : visits.getLast? with
    | none => simp [hlast] at hrace
    | some w =>
      rw [hlast, Option.elim_some, mem_raceWith] at hrace
      obtain ⟨hbetween, hthread, -, hconcurrent⟩ := hrace
      have hmem : w ∈ visits := List.mem_of_getLast? hlast
      refine ⟨w, hmem, hthread, ?_, fun hrule => Rule.noConfusion hrule, fun _ => rfl⟩
      refine race_of_unordered (hvisits ▸ hmem) hc.made hbetween fun hb => ?_
      exact hconcurrent.1 (hc.stamp_eq ▸ hb.stamp_le hl)

end Chronicle

/-! ### The events that an access adds -/

namespace Detector

variable {rule : Rule} {K : Nat} {d : Detector rule K} {config : Config} {tag : Nat}

/-- No false alarms. An access only adds events about itself, and each of them names the
thread of an earlier access to the same location since that was last forgotten. The two
accesses form a race of the kind named, and no order between them can be derived, not
even from operations that failed for an overflow. Under the precise rule the earlier
access is the last one before. Under the epoch rule an earlier access that wrote is the
last write before. -/
theorem raceEvents_sound (h : create rule K config tag = .ok d) (ops : List (Op Handle)) {n : Nat}
    {t : Handle} {a : Access} (hn : ops[n]? = some (.access t a)) (x : Address) :
    ∃ added, (d.after ops (n + 1)).raceEvents x = (d.after ops n).raceEvents x ++ added ∧
      ∀ event ∈ added, event.address = x ∧ a.address = x ∧ event.thread = t.thread ∧
        event.priorThread ≠ t.thread ∧ ∃ w ∈ (d.chronicle ops).visits x n,
          w.thread = event.priorThread ∧ RaceKind.between? w.kind a.kind = some event.kind ∧
          ¬ (d.chronicle ops).HappensBefore w.position n ∧
          ¬ (d.chronicle ops).Precedes w.position n ∧
          (rule = .epoch → event.kind ≠ .readWrite →
            lastWrite? ((d.chronicle ops).visits x n) = some w) ∧
          (rule = .precise → ((d.chronicle ops).visits x n).getLast? = some w) := by
  simp only [raceEvents_eq, after_succ d hn]
  rcases (d.after ops n).access_cases t a with ⟨-, hspares⟩ | ⟨hr, s, checked, hpass⟩
  · exact ⟨[], by rw [hspares.entryOf_eq, List.append_nil], by simp⟩
  by_cases hx : x = a.address
  · subst hx
    obtain ⟨f, hentry, -, hc⟩ := checks_of_passes h hn hr hpass
    obtain ⟨added, hadded, hsub⟩ := RaceRecord.events_reportAll config
      ((d.after ops n).entryOf a.address).races (Entry.eventsOf f a.address)
    refine ⟨added, ?_, fun event hevent => ?_⟩
    · rw [hpass.entryOf_eq, if_pos rfl, hentry]
      exact hadded
    · obtain ⟨⟨kind, u⟩, hrace, rfl⟩ := List.mem_map.mp (hsub.subset hevent)
      obtain ⟨w, hmem, rfl, hw, hepoch, hprecise⟩ :=
        (leaves_entryOf h ops a.address n).race (legal_chronicle h ops) hc rfl hrace
      exact ⟨rfl, rfl, hc.sound_thread.id_eq, hw.distinct, w, hmem, rfl, hw.between, hw.unordered,
        fun hp => hw.unordered hp.happensBefore, hepoch, hprecise⟩
  · exact ⟨[], by rw [hpass.entryOf_eq, if_neg hx, List.append_nil], by simp⟩

theorem unordered_clash : ∃ w ∈ ((forThree .epoch).chronicle clash).visits 7 3,
    w.thread = 1 ∧ ¬ ((forThree .epoch).chronicle clash).HappensBefore w.position 3 := by
  obtain ⟨added, hadded, hsound⟩ :=
    raceEvents_sound (create_forThree .epoch) clash (n := 3) rfl 7
  have hbefore : ((forThree .epoch).after clash 3).raceEvents 7 = [] := by decide
  have hafter : ((forThree .epoch).after clash 4).raceEvents 7 = [⟨.writeWrite, 7, 2, 1⟩] := by
    decide
  rw [hbefore, hafter, List.nil_append] at hadded
  have hevent : ⟨.writeWrite, 7, 2, 1⟩ ∈ added := hadded ▸ List.mem_cons_self
  obtain ⟨-, -, -, -, w, hw, hthread, -, hunordered, -⟩ := hsound _ hevent
  exact ⟨w, hw, hthread, hunordered⟩

end Detector

end RaceWatch
