import RaceWatch.Proofs.EpochCheck
import RaceWatch.Proofs.Ownership
import RaceWatch.Proofs.Provenance

/-!
What the epoch rule retains of the visits of a location. The write epoch is that of the last
write. The read epoch is that of the last read that no write has settled since, and while the
reads are shared, the read clock holds the last read of each thread, from the read before the
one that made them shared. Races and failed operations make no difference to this.
-/

namespace RaceWatch

open VectorClock

@[simp] theorem Epoch.isShared_shared : Epoch.shared.isShared = true := by decide

@[simp] theorem Epoch.isShared_empty : Epoch.empty.isShared = false := by decide

theorem Epoch.isShared_iff {e : Epoch} : e.isShared = true ↔ e = .shared := beq_iff_eq

/-- The last visit that read. -/
def lastRead? (visits : List Visit) : Option Visit :=
  (visits.filter (!·.kind.isWrite)).getLast?

/-- The last visit in which a thread read. -/
def lastReadOf? (t : Nat) (visits : List Visit) : Option Visit :=
  lastRead? (visits.filter (·.thread == t))

section

variable {visits : List Visit} {v r : Visit}

theorem lastRead?_append_read (h : v.kind = .read) : lastRead? (visits ++ [v]) = some v := by
  simp [lastRead?, h, AccessKind.isWrite]

theorem lastRead?_append_write (h : v.kind = .write) :
    lastRead? (visits ++ [v]) = lastRead? visits := by
  simp [lastRead?, h, AccessKind.isWrite]

theorem lastReadOf?_append_read (h : v.kind = .read) (t : Nat) :
    lastReadOf? t (visits ++ [v]) = if v.thread = t then some v else lastReadOf? t visits := by
  by_cases ht : v.thread = t
  · simp [lastReadOf?, List.filter_append, ht, lastRead?_append_read h]
  · simp [lastReadOf?, List.filter_append, ht]

theorem lastReadOf?_append_write (h : v.kind = .write) (t : Nat) :
    lastReadOf? t (visits ++ [v]) = lastReadOf? t visits := by
  by_cases ht : v.thread = t
  · simp [lastReadOf?, List.filter_append, ht, lastRead?_append_write h]
  · simp [lastReadOf?, List.filter_append, ht]

theorem exists_lastReadOf? (hv : v ∈ visits) (h : v.kind.isWrite = false) :
    ∃ w ∈ visits, lastReadOf? v.thread visits = some w := by
  cases hlast : lastReadOf? v.thread visits with
  | none =>
    have hnil := List.getLast?_eq_none_iff.mp hlast
    simp only [List.filter_eq_nil_iff, List.mem_filter] at hnil
    exact absurd (by simp [h]) (hnil v ⟨hv, by simp⟩)
  | some w =>
    exact ⟨w, List.mem_of_mem_filter (List.mem_of_mem_filter (List.mem_of_getLast? hlast)), rfl⟩

/-- After the last read there are only writes. -/
theorem eq_append_of_lastRead? (h : lastRead? visits = some r) :
    r.kind = .read ∧ ∃ earlier between, visits = earlier ++ r :: between ∧
      ∀ w ∈ between, w.kind = .write := by
  obtain ⟨reads, hreads⟩ := List.getLast?_eq_some_iff.mp h
  obtain ⟨earlier, rest, rfl, -, hrest⟩ := List.filter_eq_append_iff.mp hreads
  obtain ⟨writes, between, rfl, -, hread, hbetween⟩ := List.filter_eq_cons_iff.mp hrest
  have hkind (w : Visit) : w.kind.isWrite = false ∨ w.kind = .write := by
    cases w.kind <;> simp [AccessKind.isWrite]
  refine ⟨?_, earlier ++ writes, between, by simp, fun w hw => ?_⟩
  · cases hk : r.kind with
    | read => rfl
    | write => simp [hk, AccessKind.isWrite] at hread
  · have hnot := List.filter_eq_nil_iff.mp hbetween w hw
    exact (hkind w).resolve_left fun hread => hnot (by simp [hread])

/-- Where a read is followed by writes only, no other thread has a last read. -/
theorem lastReadOf?_cons_writes (h : r.kind = .read) {between : List Visit}
    (hbetween : ∀ w ∈ between, w.kind = .write) (t : Nat) :
    lastReadOf? t (r :: between) = if r.thread = t then some r else none := by
  induction between using List.reverseRecOn with
  | nil =>
    have happend : lastReadOf? t ([] ++ [r]) = _ := lastReadOf?_append_read h t
    simpa [lastReadOf?, lastRead?] using happend
  | append_singleton between w ih =>
    have hw : w.kind = .write := hbetween w (List.mem_append_right _ List.mem_cons_self)
    rw [← List.cons_append, lastReadOf?_append_write hw]
    exact ih fun u hu => hbetween u (List.mem_append_left _ hu)

end

namespace Detector

variable {K : Nat} {d : Detector .epoch K} {config : Config} {tag : Nat} {ops : List (Op Handle)}
  {x : Address} {visits : List Visit} {v : Visit} {s : ThreadState K} {h : EpochHistory K}

/-- The epoch that the thread of a visit was in when it made the visit. -/
def epochOf (d : Detector .epoch K) (ops : List (Op Handle)) (v : Visit) : Epoch :=
  ((d.after ops v.position).state? v.thread).elim .empty (·.epoch)

/-- Whether the reads of a location are shared after the first operations of a run. -/
def sharedAt (d : Detector .epoch K) (ops : List (Op Handle)) (x : Address) (n : Nat) : Bool :=
  ((d.after ops n).entryOf x).history.read.isShared

/-- Whether a visit is a read that made the reads of a location shared. -/
def shares (d : Detector .epoch K) (ops : List (Op Handle)) (x : Address) (v : Visit) : Bool :=
  !v.kind.isWrite && !d.sharedAt ops x v.position && d.sharedAt ops x (v.position + 1)

/-- Whether a visit is a write that settled shared reads of a location. -/
def settles (d : Detector .epoch K) (ops : List (Op Handle)) (x : Address) (v : Visit) : Bool :=
  v.kind.isWrite && d.sharedAt ops x v.position && !d.sharedAt ops x (v.position + 1)

/-- The visits since the last one that settled shared reads. -/
def unsettled (d : Detector .epoch K) (ops : List (Op Handle)) (x : Address)
    (visits : List Visit) : List Visit :=
  visits.rtakeWhile (!d.settles ops x ·)

/-- The visits of a location from the last read before the one that made the reads shared,
which they have been since. -/
def SharedSince (d : Detector .epoch K) (ops : List (Op Handle)) (x : Address)
    (visits phase : List Visit) : Prop :=
  ∃ earlier first between second later,
    visits = earlier ++ phase ∧ phase = first :: between ++ second :: later ∧
      first.kind = .read ∧ (∀ w ∈ between, w.kind = .write) ∧ d.shares ops x second = true ∧
      (∀ w ∈ later, d.shares ops x w = false) ∧ first.thread ≠ second.thread

/-- What the epoch rule retains of the visits of a location. -/
structure Retains (d : Detector .epoch K) (ops : List (Op Handle)) (x : Address)
    (visits : List Visit) (h : EpochHistory K) : Prop where
  epoch_spec : ∀ v ∈ visits, (d.epochOf ops v).thread = v.thread ∧ 0 < (d.epochOf ops v).clock
  write_eq : h.write = (lastWrite? visits).elim .empty (d.epochOf ops)
  of_epoch : h.read.isShared = false → h.readClock = zero ∧
    h.read = (lastRead? (d.unsettled ops x visits)).elim .empty (d.epochOf ops)
  of_shared : h.read.isShared = true → ∃ phase, d.SharedSince ops x visits phase ∧
    ∀ t, h.readClock.time t = (lastReadOf? t phase).elim 0 fun w => (d.epochOf ops w).clock

theorem retains_neutral : d.Retains ops x [] EpochHistory.neutral where
  epoch_spec := by simp
  write_eq := rfl
  of_epoch _ := ⟨rfl, rfl⟩
  of_shared hshared := by simp [EpochHistory.neutral] at hshared

/-- The reader before the one that made the reads shared, and that one, are on record. -/
theorem Retains.two_readers (hr : d.Retains ops x visits h) {phase : List Visit}
    (hp : d.SharedSince ops x visits phase)
    (htime : ∀ t, h.readClock.time t =
      (lastReadOf? t phase).elim 0 fun w => (d.epochOf ops w).clock) :
    ∃ i j : Fin K, i ≠ j ∧ h.readClock.coords.get i ≠ 0 ∧ h.readClock.coords.get j ≠ 0 := by
  obtain ⟨earlier, first, between, second, later, hvisits, hphase, hread, -, hshares, -, hne⟩ := hp
  have hon (w : Visit) (hw : w ∈ phase) (hk : w.kind.isWrite = false) :
      ∃ i : Fin K, w.thread = ownerOf i ∧ h.readClock.coords.get i ≠ 0 := by
    obtain ⟨u, hu, hlast⟩ := exists_lastReadOf? hw hk
    have hpos : 0 < h.readClock.time w.thread := by
      rw [htime, hlast]
      exact (hr.epoch_spec u (hvisits ▸ List.mem_append_right _ hu)).2
    obtain ⟨i, hi⟩ := (fits_of_time_pos hpos).slot?_eq
    rw [time_of_slot? hi] at hpos
    exact ⟨i, slot?_eq_some.mp hi, hpos.ne'⟩
  have hsecond : second.kind.isWrite = false := by
    simp only [shares, Bool.and_eq_true, Bool.not_eq_true'] at hshares
    exact hshares.1.1
  obtain ⟨i, hi, hi0⟩ := hon first (by simp [hphase]) (by rw [hread]; rfl)
  obtain ⟨j, hj, hj0⟩ := hon second (by simp [hphase]) hsecond
  exact ⟨i, j, fun hij => hne (by rw [hi, hj, hij]), hi0, hj0⟩

theorem SharedSince.append {phase : List Visit} (hp : d.SharedSince ops x visits phase)
    (hv : d.shares ops x v = false) : d.SharedSince ops x (visits ++ [v]) (phase ++ [v]) := by
  obtain ⟨earlier, first, between, second, later, rfl, rfl, hread, hwrites, hshares, hlater, hne⟩ :=
    hp
  refine ⟨earlier, first, between, second, later ++ [v], by simp, by simp, hread, hwrites, hshares,
    fun w hw => ?_, hne⟩
  rcases List.mem_append.mp hw with hw | hw
  · exact hlater w hw
  · exact List.mem_singleton.mp hw ▸ hv

theorem unsettled_append (hv : d.settles ops x v = false) :
    d.unsettled ops x (visits ++ [v]) = d.unsettled ops x visits ++ [v] :=
  List.rtakeWhile_concat_pos _ _ _ (by simp [hv])

theorem unsettled_append_settles (hv : d.settles ops x v = true) :
    d.unsettled ops x (visits ++ [v]) = [] :=
  List.rtakeWhile_concat_neg _ _ _ (by simp [hv])

/-- What a visit does to a history, and what the thread of the visit has to do with it. -/
structure Turn (d : Detector .epoch K) (ops : List (Op Handle)) (x : Address) (v : Visit)
    (s : ThreadState K) (h h' : EpochHistory K) : Prop where
  capacity : K ≤ maxThread
  sound : s.Sound v.thread
  epoch_eq : d.epochOf ops v = s.epoch
  before : d.sharedAt ops x v.position = h.read.isShared
  after : d.sharedAt ops x (v.position + 1) = h'.read.isShared
  read_le : h.read.thread ≤ K
  /-- No more is on record of a thread than it knows itself. -/
  own : h.read.thread = v.thread → h.read.KnownTo s.clock

namespace Turn

variable {h' : EpochHistory K}

theorem epoch_spec (ht : d.Turn ops x v s h h') :
    (d.epochOf ops v).thread = v.thread ∧ 0 < (d.epochOf ops v).clock := by
  rw [ht.epoch_eq, ht.sound.thread_epoch ht.capacity, ht.sound.clock_epoch ht.capacity]
  exact ⟨rfl, ht.sound.time_pos⟩

theorem isShared_epoch (ht : d.Turn ops x v s h h') : s.epoch.isShared = false :=
  Epoch.isShared_eq_false (ht.sound.thread_epoch ht.capacity ▸ ht.sound.fits.1)

theorem shares_eq (ht : d.Turn ops x v s h h') :
    d.shares ops x v = (!v.kind.isWrite && !h.read.isShared && h'.read.isShared) := by
  rw [shares, ht.before, ht.after]

theorem settles_eq (ht : d.Turn ops x v s h h') :
    d.settles ops x v = (v.kind.isWrite && h.read.isShared && !h'.read.isShared) := by
  rw [settles, ht.before, ht.after]

theorem epoch_spec_append (ht : d.Turn ops x v s h h') (hr : d.Retains ops x visits h) :
    ∀ w ∈ visits ++ [v], (d.epochOf ops w).thread = w.thread ∧ 0 < (d.epochOf ops w).clock := by
  intro w hw
  rcases List.mem_append.mp hw with hw | hw
  · exact hr.epoch_spec w hw
  · exact List.mem_singleton.mp hw ▸ ht.epoch_spec

/-! ### The cases of a read -/

section Read

variable (hr : d.Retains ops x visits h) (hk : v.kind = .read)
include hr hk

theorem write_eq_of_read (hw : h'.write = h.write) :
    h'.write = (lastWrite? (visits ++ [v])).elim .empty (d.epochOf ops) := by
  rw [hw, hr.write_eq, lastWrite?_append_read hk]

/-- The read takes the place of the last read. -/
theorem retains_of_read_epoch (ht : d.Turn ops x v s h h') (hw : h'.write = h.write)
    (hshared : h.read.isShared = false) (hread : h'.read = s.epoch)
    (hclock : h'.readClock = h.readClock) : d.Retains ops x (visits ++ [v]) h' where
  epoch_spec := ht.epoch_spec_append hr
  write_eq := write_eq_of_read hr hk hw
  of_epoch _ := by
    have hsettles : d.settles ops x v = false := by simp [ht.settles_eq, hk, AccessKind.isWrite]
    rw [unsettled_append hsettles, lastRead?_append_read hk, Option.elim_some, ht.epoch_eq]
    exact ⟨hclock.trans (hr.of_epoch hshared).1, hread⟩
  of_shared hshared' := by simp [hread, ht.isShared_epoch] at hshared'

/-- The read is one more of the shared ones. -/
theorem retains_of_read_shared (hshared : h.read.isShared = true)
    (ht : d.Turn ops x v s h { h with readClock := h.readClock.mark s.id s.epoch.clock }) :
    d.Retains ops x (visits ++ [v])
      { h with readClock := h.readClock.mark s.id s.epoch.clock } where
  epoch_spec := ht.epoch_spec_append hr
  write_eq := write_eq_of_read hr hk rfl
  of_epoch hshared' := by simp [hshared] at hshared'
  of_shared _ := by
    obtain ⟨phase, hphase, htime⟩ := hr.of_shared hshared
    refine ⟨phase ++ [v], hphase.append (by simp [ht.shares_eq, hshared]), fun t => ?_⟩
    rw [lastReadOf?_append_read hk, time_mark (ht.sound.id_eq ▸ ht.sound.fits), htime,
      ht.sound.id_eq]
    by_cases hvt : v.thread = t
    · rw [if_pos hvt.symm, if_pos hvt, Option.elim_some, ht.epoch_eq]
    · rw [if_neg (Ne.symm hvt), if_neg hvt]

/-- The read makes the reads shared, since it does not know of the last one. -/
theorem retains_of_read_share (hshared : h.read.isShared = false)
    (hunknown : ¬ h.read.KnownTo s.clock) {c : VectorClock K}
    (hc : c = (zero.mark h.read.thread h.read.clock).mark s.id s.epoch.clock)
    (ht : d.Turn ops x v s h { h with read := .shared, readClock := c }) :
    d.Retains ops x (visits ++ [v]) { h with read := .shared, readClock := c } where
  epoch_spec := ht.epoch_spec_append hr
  write_eq := write_eq_of_read hr hk rfl
  of_epoch hshared' := by simp at hshared'
  of_shared _ := by
    have hthread : h.read.thread ≠ noThread := fun h0 => hunknown (.inl h0)
    have hread := (hr.of_epoch hshared).2
    cases hlast : lastRead? (d.unsettled ops x visits) with
    | none =>
      rw [hlast] at hread
      exact absurd (hread ▸ Epoch.thread_empty) hthread
    | some first =>
      rw [hlast, Option.elim_some] at hread
      obtain ⟨hfirst, pre, between, hunsettled, hwrites⟩ := eq_append_of_lastRead? hlast
      have hvisits : visits = visits.rdropWhile (!d.settles ops x ·) ++
          (pre ++ first :: between) := by
        rw [← hunsettled, unsettled, List.rdropWhile_append_rtakeWhile]
      have hspec := hr.epoch_spec first (by rw [hvisits]; simp)
      rw [← hread] at hspec
      refine ⟨first :: between ++ [v], ⟨visits.rdropWhile (!d.settles ops x ·) ++ pre, first,
        between, v, [], ?_, rfl, hfirst, hwrites, ?_, by simp, fun hne => ?_⟩, fun t => ?_⟩
      · conv_lhs => rw [hvisits]
        simp
      · simp [ht.shares_eq, hk, AccessKind.isWrite, hshared]
      · exact hunknown (ht.own (hspec.1.trans hne))
      · rw [lastReadOf?_append_read hk, lastReadOf?_cons_writes hfirst hwrites, hc,
          time_mark (ht.sound.id_eq ▸ ht.sound.fits), time_mark ⟨hthread, ht.read_le⟩, time_zero,
          ht.sound.id_eq, hspec.1]
        by_cases hvt : v.thread = t
        · rw [if_pos hvt.symm, if_pos hvt, Option.elim_some, ht.epoch_eq]
        · rw [if_neg (Ne.symm hvt), if_neg hvt]
          by_cases hft : first.thread = t
          · rw [if_pos hft.symm, if_pos hft, Option.elim_some, hread]
          · rw [if_neg (Ne.symm hft), if_neg hft, Option.elim_none]

theorem retains_read (ht : d.Turn ops x v s h (h.readBy s)) :
    d.Retains ops x (visits ++ [v]) (h.readBy s) := by
  by_cases hsame : h.read = s.epoch
  · have hstep : h.readBy s = h := if_pos hsame
    rw [hstep] at ht ⊢
    exact retains_of_read_epoch hr hk ht rfl (hsame ▸ ht.isShared_epoch) hsame rfl
  cases hshared : h.read.isShared with
  | true =>
    have hstep : h.readBy s = { h with readClock := h.readClock.mark s.id s.epoch.clock } := by
      rw [EpochHistory.readBy, if_neg hsame, if_pos hshared]
    rw [hstep] at ht ⊢
    exact retains_of_read_shared hr hk hshared ht
  | false =>
    by_cases hknown : h.read.KnownTo s.clock
    · have hstep : h.readBy s = { h with read := s.epoch } := by
        simp [EpochHistory.readBy, hsame, hshared, hknown]
      rw [hstep] at ht ⊢
      exact retains_of_read_epoch hr hk ht rfl hshared rfl rfl
    · have hstep : h.readBy s = { h with
          read := .shared
          readClock := (zero.mark h.read.thread h.read.clock).mark s.id s.epoch.clock } := by
        simp [EpochHistory.readBy, hsame, hshared, hknown]
      rw [hstep] at ht ⊢
      exact retains_of_read_share hr hk hshared hknown rfl ht

end Read

/-! ### The cases of a write -/

section Write

variable (hr : d.Retains ops x visits h) (hk : v.kind = .write)
include hr hk

/-- The write leaves the reads as they are. -/
theorem retains_of_write (ht : d.Turn ops x v s h h') (hw : h'.write = s.epoch)
    (hread : h'.read = h.read) (hclock : h'.readClock = h.readClock) :
    d.Retains ops x (visits ++ [v]) h' where
  epoch_spec := ht.epoch_spec_append hr
  write_eq := by rw [hw, lastWrite?_append_write hk, Option.elim_some, ht.epoch_eq]
  of_epoch hshared := by
    have hsettles : d.settles ops x v = false := by simp [ht.settles_eq, hread]
    rw [unsettled_append hsettles, lastRead?_append_write hk, hclock, hread]
    exact hr.of_epoch (hread ▸ hshared)
  of_shared hshared := by
    obtain ⟨phase, hphase, htime⟩ := hr.of_shared (hread ▸ hshared)
    refine ⟨phase ++ [v], hphase.append (by simp [ht.shares_eq, hk, AccessKind.isWrite]),
      fun t => ?_⟩
    rw [lastReadOf?_append_write hk, hclock, htime]

/-- The write settles the shared reads. -/
theorem retains_of_write_shared (hshared : h.read.isShared = true)
    (ht : d.Turn ops x v s h ⟨s.epoch, .empty, zero⟩) :
    d.Retains ops x (visits ++ [v]) ⟨s.epoch, .empty, zero⟩ where
  epoch_spec := ht.epoch_spec_append hr
  write_eq := by rw [lastWrite?_append_write hk, Option.elim_some, ht.epoch_eq]
  of_epoch _ := by
    have hsettles : d.settles ops x v = true := by
      simp [ht.settles_eq, hk, AccessKind.isWrite, hshared]
    rw [unsettled_append_settles hsettles]
    exact ⟨rfl, rfl⟩
  of_shared hshared' := by simp at hshared'

theorem retains_write (ht : d.Turn ops x v s h (h.writtenBy s)) :
    d.Retains ops x (visits ++ [v]) (h.writtenBy s) := by
  by_cases hsame : h.write = s.epoch
  · have hstep : h.writtenBy s = h := if_pos hsame
    rw [hstep] at ht ⊢
    exact retains_of_write hr hk ht hsame rfl rfl
  cases hshared : h.read.isShared with
  | true =>
    have hstep : h.writtenBy s = ⟨s.epoch, .empty, zero⟩ := by
      rw [EpochHistory.writtenBy, if_neg hsame, if_pos hshared]
    rw [hstep] at ht ⊢
    exact retains_of_write_shared hr hk hshared ht
  | false =>
    have hstep : h.writtenBy s = { h with write := s.epoch } := by
      simp [EpochHistory.writtenBy, hsame, hshared]
    rw [hstep] at ht ⊢
    exact retains_of_write hr hk ht rfl rfl rfl

end Write

theorem retains (hr : d.Retains ops x visits h) (ht : d.Turn ops x v s h (h.accessedBy s v.kind)) :
    d.Retains ops x (visits ++ [v]) (h.accessedBy s v.kind) := by
  cases hk : v.kind with
  | read =>
    rw [hk] at ht
    exact retains_read hr hk ht
  | write =>
    rw [hk] at ht
    exact retains_write hr hk ht

end Turn

/-- Whatever a location has on record of a thread, the thread knows it. -/
theorem knownTo_of_own (hd : create .epoch K config tag = .ok d) (ops : List (Op Handle))
    (x : Address) {n : Nat} (hs : (d.after ops n).state? v.thread = some s)
    (ht : ((d.after ops n).entryOf x).history.read.thread = v.thread) :
    ((d.after ops n).entryOf x).history.read.KnownTo s.clock := by
  have hwithin := (leaves_entryOf hd ops x n).within (legal_chronicle hd ops) fun w =>
    Chronicle.position_lt_of_mem
  rw [← knowledge_after hd] at hwithin
  by_cases h0 : ((d.after ops n).entryOf x).history.read.thread = noThread
  · exact .inl h0
  · right
    have hle := (EpochHistory.Within.read hwithin h0).2
    rw [ht, own_knowledge hs] at hle
    rw [ht]
    exact hle

theorem retains_after (hd : create .epoch K config tag = .ok d) (ops : List (Op Handle))
    (x : Address) (n : Nat) :
    d.Retains ops x ((d.chronicle ops).visits x n) ((d.after ops n).entryOf x).history := by
  refine visit_induction hd ops x (P := fun visits entry => d.Retains ops x visits entry.history)
    retains_neutral (fun v s f hr hs hc hafter => ?_) n
  have hrange := (leaves_entryOf hd ops x v.position).epochTrace.inRange
  have hfound : f.history = _ := (hrange.found_eq hc.sound.fits_id hc.check_eq).1
  have hturn : d.Turn ops x v s ((d.after ops v.position).entryOf x).history f.history :=
    { capacity := hc.capacity
      sound := hc.sound
      epoch_eq := by rw [epochOf, hs, Option.elim_some]
      before := rfl
      after := by rw [sharedAt, hafter]; rfl
      read_le := hrange.read_le
      own := knownTo_of_own hd ops x hs }
  show d.Retains ops x _ f.history
  rw [hfound] at hturn ⊢
  exact hturn.retains hr

/-- An entry under the epoch rule is what it retains of the visits that its location has had
since it was created, in every state that can be reached. The write epoch is the one in which
the last write was made. Unless the reads are shared, the read clock is zero and the read epoch
is the one in which the last read was made that no write has settled since. If they are shared,
two threads at least have a coordinate in the read clock, and each thread has there the clock
value of its last read, back to the read before the one that made the reads shared. -/
theorem entry_retains_visits (hd : create .epoch K config tag = .ok d) (ops : List (Op Handle))
    (n : Nat) {x : Address} {entry : Entry .epoch K}
    (hentry : (d.after ops n).entryAt? x = some entry) :
    entry.history.write =
        (lastWrite? ((d.chronicle ops).visits x n)).elim .empty (d.epochOf ops) ∧
      (entry.history.read ≠ .shared →
        (∀ i : Fin K, entry.history.readClock.coords.get i = 0) ∧
          entry.history.read =
            (lastRead? (d.unsettled ops x ((d.chronicle ops).visits x n))).elim .empty
              (d.epochOf ops)) ∧
      (entry.history.read = .shared →
        (∃ i j : Fin K, i ≠ j ∧ entry.history.readClock.coords.get i ≠ 0 ∧
          entry.history.readClock.coords.get j ≠ 0) ∧
        ∃ phase, d.SharedSince ops x ((d.chronicle ops).visits x n) phase ∧
          ∀ i : Fin K, entry.history.readClock.coords.get i =
            (lastReadOf? (ownerOf i) phase).elim 0 fun w => (d.epochOf ops w).clock) := by
  have hr := retains_after hd ops x n
  rw [entryOf_of_entryAt? hentry] at hr
  refine ⟨hr.write_eq, fun hread => ?_, fun hread => ?_⟩
  · have hshared : entry.history.read.isShared = false := by
      rw [← Bool.not_eq_true, Epoch.isShared_iff]
      exact hread
    obtain ⟨hclock, hlast⟩ := hr.of_epoch hshared
    refine ⟨fun i => ?_, hlast⟩
    rw [hclock]
    exact coords_zero i
  · obtain ⟨phase, hphase, htime⟩ := hr.of_shared (Epoch.isShared_iff.mpr hread)
    exact ⟨hr.two_readers hphase htime, phase, hphase,
      fun i => (time_ownerOf _ i).symm.trans (htime _)⟩

theorem retains_readTogether :
    (∃ entry, ((forThree .epoch).after readTogether 5).entryAt? 7 = some entry ∧
      entry.history.read = .shared ∧
      ∃ phase, (forThree .epoch).SharedSince readTogether 7
        (((forThree .epoch).chronicle readTogether).visits 7 5) phase) ∧
    ∃ entry, ((forThree .epoch).after readTogether 7).entryAt? 7 = some entry ∧
      entry.history.read ≠ .shared ∧ entry.history.readClock.coords.get 0 = 0 := by
  obtain ⟨entry, hentry⟩ :
      ∃ entry, ((forThree .epoch).after readTogether 5).entryAt? 7 = some entry := ⟨_, rfl⟩
  obtain ⟨entry', hentry'⟩ :
      ∃ entry, ((forThree .epoch).after readTogether 7).entryAt? 7 = some entry := ⟨_, rfl⟩
  have hshared : entry.history.read = .shared := by
    obtain rfl := Option.some.inj hentry
    decide
  have hread : entry'.history.read ≠ .shared := by
    obtain rfl := Option.some.inj hentry'
    decide
  obtain ⟨-, -, hphase⟩ := entry_retains_visits (create_forThree .epoch) readTogether 5 hentry
  obtain ⟨-, hepoch, -⟩ := entry_retains_visits (create_forThree .epoch) readTogether 7 hentry'
  obtain ⟨-, phase, hphase, -⟩ := hphase hshared
  exact ⟨⟨entry, hentry, hshared, phase, hphase⟩, entry', hentry', hread, (hepoch hread).1 0⟩

end Detector

end RaceWatch
