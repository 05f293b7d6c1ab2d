import RaceWatch.Proofs.Provenance

/-!
The epoch rule finds exactly the racy locations. It forgets most of the visits of a
location, but as long as no race has been found each visit is covered by one that the
rule still remembers: it is that one or happens before it. So whoever comes after all
that is remembered comes after all visits.
-/

namespace RaceWatch

open VectorClock

namespace Chronicle

variable {K : Nat} {H : Chronicle} {config : Config} {x : Address} {n : Nat}
  {visits : List Visit} {v w : Visit} {s : ThreadState K} {h : EpochHistory K}
  {f : Finding (EpochHistory K) K}

/-- Whether one of two visits of different threads wrote. -/
def Conflict (w v : Visit) : Prop := w.thread ≠ v.thread ∧ (w.kind = .write ∨ v.kind = .write)

/-- Whether two of the visits of a location have no order between them, although they
conflict. -/
def Racy (H : Chronicle) (x : Address) (n : Nat) : Prop :=
  ∃ w ∈ H.visits x n, ∃ v ∈ H.visits x n, Conflict w v ∧
    ¬ H.HappensBefore w.position v.position ∧ ¬ H.HappensBefore v.position w.position

/-- All visits that conflict are ordered. -/
def Calm (H : Chronicle) (visits : List Visit) : Prop :=
  ∀ w ∈ visits, ∀ v ∈ visits, Conflict w v →
    H.HappensBefore w.position v.position ∨ H.HappensBefore v.position w.position

theorem Conflict.symm (h : Conflict w v) : Conflict v w := ⟨h.1.symm, h.2.symm⟩

theorem Race.conflict {kind : RaceKind} (h : H.Race w v kind) : Conflict w v := by
  refine ⟨h.distinct, ?_⟩
  have hbetween := h.between
  cases hw : w.kind with
  | write => exact .inl rfl
  | read =>
    cases hv : v.kind with
    | write => exact .inr rfl
    | read => simp [hw, hv, RaceKind.between?] at hbetween

theorem racy_iff_not_calm : H.Racy x n ↔ ¬ H.Calm (H.visits x n) := by
  simp only [Racy, Calm]
  push Not
  rfl

theorem Calm.append (hcalm : H.Calm visits)
    (h : ∀ w ∈ visits, Conflict w v → H.HappensBefore w.position v.position) :
    H.Calm (visits ++ [v]) := by
  intro w hw u hu hconflict
  rw [List.mem_append, List.mem_singleton] at hw hu
  rcases hw with hw | rfl
  · rcases hu with hu | rfl
    · exact hcalm w hw u hu hconflict
    · exact .inl (h w hw hconflict)
  · rcases hu with hu | rfl
    · exact .inr (h u hu hconflict.symm)
    · exact absurd rfl hconflict.1

/-- Whether a history still remembers a visit: as the last write, or as a read of its
thread that was not later than the one it remembers. -/
def Remembers (H : Chronicle) (h : EpochHistory K) (w : Visit) : Prop :=
  match w.kind with
  | .write => H.Marks K w h.write
  | .read => H.timeOf .epoch K w ≤ h.readTime w.thread

/-- Each visit is one that the history remembers or happens before one. A write is
covered by a write. -/
def Covered (H : Chronicle) (visits : List Visit) (h : EpochHistory K) : Prop :=
  ∀ v ∈ visits, ∃ w ∈ visits, (v = w ∨ H.HappensBefore v.position w.position) ∧
    H.Remembers h w ∧ (v.kind = .write → w.kind = .write)

/-- An earlier visit happens before a later one exactly if its event is known. -/
theorem Checks.happensBefore_iff (hc : H.Checks .epoch x v h s f) (hl : H.Legal .epoch K)
    (ho : H.NoOverflow) (hw : w ∈ H.visits x v.position) :
    H.HappensBefore w.position v.position ↔ H.timeOf .epoch K w ≤ s.clock.time w.thread := by
  obtain ⟨e, he, hact⟩ := (made_of_mem hw).exists_at
  obtain ⟨e', he', hact'⟩ := hc.made.exists_at
  rw [happensBefore_iff_time_le hl ho he he' hact hact' (position_lt_of_mem hw), hc.time_eq, timeOf]

theorem thread_ne_noThread (hl : H.Legal .epoch K) (hw : H.Made x w) : w.thread ≠ noThread := by
  obtain ⟨e, he, hact⟩ := hw.exists_at
  exact (fits_of_time_pos (stamp_time_pos hl he hact)).1

/-- A visit is known to happen before a new one if what the rule remembers of it is
known. -/
theorem Checks.happensBefore_of_known (hc : H.Checks .epoch x v h s f) (hl : H.Legal .epoch K)
    (ho : H.NoOverflow) (hw : w ∈ H.visits x v.position) (hr : H.Remembers h w)
    (hwrite : w.kind = .write → h.write.KnownTo s.clock)
    (hread : w.kind = .read → h.readTime w.thread ≤ s.clock.time w.thread) :
    H.HappensBefore w.position v.position := by
  rw [hc.happensBefore_iff hl ho hw]
  cases hk : w.kind with
  | read =>
    rw [Remembers, hk] at hr
    exact hr.trans (hread hk)
  | write =>
    rw [Remembers, hk] at hr
    rw [← hr.thread_eq, ← hr.clock_eq]
    refine (hwrite hk).resolve_left ?_
    rw [hr.thread_eq]
    exact thread_ne_noThread hl (made_of_mem hw)

/-! ### One more visit -/

/-- A new visit covers itself and what it makes the history forget. -/
theorem Covered.append {h' : EpochHistory K} (hcov : H.Covered visits h)
    (hv : H.Remembers h' v)
    (hold : ∀ w ∈ visits, H.Remembers h w → H.Remembers h' w ∨
      H.HappensBefore w.position v.position ∧ (w.kind = .write → v.kind = .write)) :
    H.Covered (visits ++ [v]) h' := by
  have hmem : v ∈ visits ++ [v] := List.mem_append_right _ List.mem_cons_self
  intro u hu
  rw [List.mem_append, List.mem_singleton] at hu
  rcases hu with hu | rfl
  · obtain ⟨w, hw, huw, hr, hkind⟩ := hcov u hu
    rcases hold w hw hr with hr' | ⟨hwv, hkind'⟩
    · exact ⟨w, List.mem_append_left _ hw, huw, hr', hkind⟩
    · refine ⟨v, hmem, .inr ?_, hv, fun hk => hkind' (hkind hk)⟩
      rcases huw with rfl | huw
      · exact hwv
      · exact huw.trans hwv
  · exact ⟨u, hmem, .inl rfl, hv, id⟩

/-- Whoever comes after what is remembered comes after all visits. A read only has to
come after the writes. -/
theorem Covered.ordered (hcov : H.Covered visits h)
    (hknown : ∀ w ∈ visits, H.Remembers h w → (v.kind = .read → w.kind = .write) →
      H.HappensBefore w.position v.position) :
    ∀ w ∈ visits, Conflict w v → H.HappensBefore w.position v.position := by
  intro u hu hconflict
  obtain ⟨w, hw, huw, hr, hkind⟩ := hcov u hu
  have hwv := hknown w hw hr fun hk => hkind (hconflict.2.resolve_right (by simp [hk]))
  rcases huw with rfl | huw
  · exact hwv
  · exact huw.trans hwv

/-- A visit in the event of an earlier one of its kind finds no more than that one. If
another thread had come in between, the own thread would be in a later event. -/
theorem Checks.ordered_of_same_event (hc : H.Checks .epoch x v h s f) (hl : H.Legal .epoch K)
    (ho : H.NoOverflow) (hcalm : H.Calm (H.visits x v.position)) {l : Visit}
    (hmem : l ∈ H.visits x v.position) (hkind : l.kind = v.kind) (hthread : l.thread = v.thread)
    (htime : H.timeOf .epoch K l = H.timeOf .epoch K v) :
    ∀ w ∈ H.visits x v.position, Conflict w v → H.HappensBefore w.position v.position := by
  intro w hw hconflict
  have hlv := happensBefore_of_thread_eq hmem hc.made hthread
  have hconflict' : Conflict w l := ⟨hthread ▸ hconflict.1, hkind ▸ hconflict.2⟩
  rcases hcalm w hw l hmem hconflict' with hwl | hlw
  · exact hwl.trans hlv
  -- Another thread has learnt of the event, so that it has ended since.
  · obtain ⟨e, he, hact⟩ := (made_of_mem hmem).exists_at
    obtain ⟨e', he', hact'⟩ := (made_of_mem hw).exists_at
    have hlt := hlw.time_lt hl ho he he' hact hact' hconflict'.1 (position_lt_of_mem hw)
    rw [Knowledge.own, hthread, ← hc.clock_eq, ← hc.time_eq, ← hthread] at hlt
    rw [timeOf, timeOf, hthread] at htime
    rw [hthread, htime] at hlt
    exact absurd hlt (Nat.lt_irrefl _)

section

variable (ht : H.EpochTrace (H.visits x v.position) h) (hc : H.Checks .epoch x v h s f)
include ht hc

/-- A history remembers the visit that it has just been left by. -/
theorem EpochTrace.remembers : H.Remembers f.history v := by
  obtain ⟨-, hout⟩ := ht.outcome hc
  have htime : H.timeOf .epoch K v = s.clock.time v.thread := hc.time_eq _
  generalize hk : v.kind = kind at hout
  rw [Remembers, hk]
  cases hout with
  -- In the event of an earlier visit of its kind, that one stands in for it.
  | readAgain hsame hhistory =>
    dsimp only
    rw [hhistory, EpochHistory.readTime_of_read_eq hc.sound hc.capacity hsame, htime]
  | writeAgain hsame hhistory =>
    rw [hhistory]
    exact hsame ▸ hc.marks
  | read hnew =>
    dsimp only
    rw [hnew.readTime_self, htime]
  | write hnew => exact hnew.write_eq ▸ hc.marks

variable (hl : H.Legal .epoch K) (ho : H.NoOverflow) (hcalm : H.Calm (H.visits x v.position))
include hl ho hcalm

/-- A read in the event of the last read finds no more than that one. -/
theorem EpochTrace.ordered_of_read (hk : v.kind = .read) (hsame : h.read = s.epoch) :
    ∀ w ∈ H.visits x v.position, Conflict w v → H.HappensBefore w.position v.position := by
  have hpos : 0 < s.clock.time v.thread := hc.sound.time_pos
  have htime : H.timeOf .epoch K v = s.clock.time v.thread := hc.time_eq _
  have hread := EpochHistory.readTime_of_read_eq hc.sound hc.capacity hsame
  obtain ⟨l, hmem, hkind, hthread, hl'⟩ := ht.exists_read v.thread (hread ▸ hpos)
  exact hc.ordered_of_same_event hl ho hcalm hmem (hkind.trans hk.symm) hthread
    (hl'.trans (hread.trans htime.symm))

/-- A write in the event of the last write finds no more than that one. -/
theorem EpochTrace.ordered_of_write (hk : v.kind = .write) (hsame : h.write = s.epoch) :
    ∀ w ∈ H.visits x v.position, Conflict w v → H.HappensBefore w.position v.position := by
  have hv : H.Marks K v h.write := hsame ▸ hc.marks
  obtain ⟨l, hlast, hmarks⟩ := ht.exists_write (hv.thread_eq ▸ hc.sound.fits.1)
  obtain ⟨hmem, hkind⟩ := mem_of_lastWrite? hlast
  exact hc.ordered_of_same_event hl ho hcalm hmem (hkind.trans hk.symm)
    (hmarks.thread_eq.symm.trans hv.thread_eq) (hmarks.clock_eq.symm.trans hv.clock_eq)

/-- A check that finds no race has all conflicting visits in its past, and the history
covers the new visit as well. -/
theorem EpochTrace.covered_append (hcov : H.Covered (H.visits x v.position) h)
    (hraces : f.races = []) :
    H.Covered (H.visits x v.position ++ [v]) f.history ∧
      ∀ w ∈ H.visits x v.position, Conflict w v → H.HappensBefore w.position v.position := by
  have hv := ht.remembers hc
  obtain ⟨-, hout⟩ := ht.outcome hc
  generalize hk : v.kind = kind at hout
  cases hout with
  | readAgain hsame hhistory =>
    rw [hhistory] at hv ⊢
    exact ⟨hcov.append hv fun w _ hr => .inl hr, ht.ordered_of_read hc hl ho hcalm hk hsame⟩
  | writeAgain hsame hhistory =>
    rw [hhistory] at hv ⊢
    exact ⟨hcov.append hv fun w _ hr => .inl hr, ht.ordered_of_write hc hl ho hcalm hk hsame⟩
  -- A read that is forgotten is one the new read comes after.
  | read hnew =>
    have hknown := hnew.write_known hraces
    constructor
    · refine hcov.append hv fun w hw hr => ?_
      cases hkw : w.kind with
      | write =>
        left
        rw [Remembers, hkw] at hr ⊢
        rwa [hnew.write_eq]
      | read =>
        by_cases hthread : w.thread = v.thread
        · right
          exact ⟨happensBefore_of_thread_eq hw hc.made hthread, by simp⟩
        · rcases hnew.readTime_eq w.thread hthread with heq | ⟨-, hle⟩
          · left
            rw [Remembers, hkw] at hr ⊢
            rwa [heq]
          · right
            exact ⟨hc.happensBefore_of_known hl ho hw hr (fun _ => hknown) (fun _ => hle), by simp⟩
    · refine hcov.ordered fun w hw hr hkind => ?_
      exact hc.happensBefore_of_known hl ho hw hr (fun _ => hknown) (by simp [hkind hk])
  -- A write comes after all that was remembered and takes the place of all of it.
  | write hnew =>
    have hafter (w : Visit) (hw : w ∈ H.visits x v.position) (hr : H.Remembers h w) :
        H.HappensBefore w.position v.position :=
      hc.happensBefore_of_known hl ho hw hr (fun _ => hnew.write_known hraces)
        fun _ => hnew.reads_known hraces w.thread
    exact ⟨hcov.append hv fun w hw hr => .inr ⟨hafter w hw hr, fun _ => hk⟩,
      hcov.ordered fun w hw hr _ => hafter w hw hr⟩

end

/-! ### All visits of a location -/

/-- As long as no race is counted all visits that conflict are ordered, and from the
first race on they are not. -/
theorem Leaves.calm_iff {entry : Entry .epoch K} (hle : H.Leaves config x visits entry)
    (hl : H.Legal .epoch K) (ho : H.NoOverflow) :
    (entry.races.count = 0 → H.Covered visits entry.history ∧ H.Calm visits) ∧
      (entry.races.count ≠ 0 → ¬ H.Calm visits) := by
  induction hle with
  | neutral =>
    refine ⟨fun _ => ⟨?_, ?_⟩, fun hne => absurd rfl hne⟩
    · intro v hv
      exact absurd hv List.not_mem_nil
    · intro w hw
      exact absurd hw List.not_mem_nil
  | @check visits v entry s f before earlier checks ih =>
    subst earlier
    have htrace := before.epochTrace
    have hcount : (entry.found config x f).races.count = 0 ↔
        entry.races.count = 0 ∧ f.races = [] := by
      rw [Entry.found, RaceRecord.count_reportAll_eq_zero, Entry.eventsOf, List.map_eq_nil_iff]
    constructor
    · intro hzero
      obtain ⟨hzero, hraces⟩ := hcount.mp hzero
      obtain ⟨hcov, hcalm⟩ := ih.1 hzero
      obtain ⟨hcov', hordered⟩ := htrace.covered_append checks hl ho hcalm hcov hraces
      exact ⟨hcov', hcalm.append hordered⟩
    · intro hne hcalm
      by_cases hzero : entry.races.count = 0
      · have hraces : f.races ≠ [] := fun hnil => hne (hcount.mpr ⟨hzero, hnil⟩)
        obtain ⟨⟨kind, u⟩, hrace⟩ := List.exists_mem_of_ne_nil _ hraces
        obtain ⟨w, hw, -, hr, -⟩ := htrace.race hl checks rfl hrace
        rcases hcalm w (List.mem_append_left _ hw) v
          (List.mem_append_right _ List.mem_cons_self) hr.conflict with hwv | hvw
        · exact hr.unordered hwv
        · exact not_happensBefore_of_mem hw le_rfl hvw
      · refine ih.2 hzero fun w hw u hu => ?_
        exact hcalm w (List.mem_append_left _ hw) u (List.mem_append_left _ hu)

end Chronicle

namespace Detector

variable {K : Nat} {d : Detector .epoch K} {config : Config} {tag : Nat}

/-- The epoch rule finds exactly the racy locations. After any number of operations of a
run without overflows, races have been counted on a location exactly if two of the
accesses that count for it, by different threads and one of them a write, have no order
between them. -/
theorem raceCount_pos_iff (h : create .epoch K config tag = .ok d) (ops : List (Op Handle))
    (ho : (d.chronicle ops).NoOverflow) (x : Address) (n : Nat) :
    0 < (d.after ops n).raceCount x ↔ (d.chronicle ops).Racy x n := by
  have hcalm := (leaves_entryOf h ops x n).calm_iff (legal_chronicle h ops) ho
  rw [raceCount_eq, Chronicle.racy_iff_not_calm, Nat.pos_iff_ne_zero]
  constructor
  · exact hcalm.2
  · intro hnot hzero
    exact hnot (hcalm.1 hzero).2

theorem racy_clash : ((forThree .epoch).chronicle clash).Racy 7 4 :=
  (raceCount_pos_iff (create_forThree .epoch) clash (by decide) 7 4).mp (by decide)

/-- The four sources of order do not suffice. Two accesses that they leave unordered are
not counted, since the join hands on what the thread learnt by the fork. -/
theorem relay_not_counted : ∃ d : Detector .epoch 3, create .epoch 3 .default 0 = .ok d ∧
    (d.chronicle relay).NoOverflow ∧
    ¬ (0 < (d.after relay 7).raceCount 7 ↔
      ∃ w ∈ (d.chronicle relay).visits 7 7, ∃ v ∈ (d.chronicle relay).visits 7 7,
        Chronicle.Conflict w v ∧ ¬ (d.chronicle relay).Precedes w.position v.position ∧
          ¬ (d.chronicle relay).Precedes v.position w.position) := by
  refine ⟨forThree .epoch, create_forThree .epoch, noOverflow_relay .epoch, fun hiff => ?_⟩
  have hcount : (((forThree .epoch).after relay 7).raceCount 7) = 0 := by decide
  have hvisits : ((forThree .epoch).chronicle relay).visits 7 7 =
      [⟨3, 1, .write⟩, ⟨6, 2, .write⟩] := by
    decide
  rw [hcount, hvisits] at hiff
  refine absurd (hiff.mpr ⟨⟨3, 1, .write⟩, by simp, ⟨6, 2, .write⟩, by simp, ?_, ?_, ?_⟩)
    (Nat.lt_irrefl 0)
  · exact ⟨by decide, .inl rfl⟩
  · exact not_precedes_relay .epoch
  · intro h
    exact absurd h.happensBefore.lt (by decide)

end Detector

end RaceWatch
