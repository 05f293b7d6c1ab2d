import RaceWatch.Proofs.Visit

/-!
Each thread owns its coordinate. Wherever a detector keeps a time of a thread, in the clock
of another thread, in the clock of a lock or in the entry of a location, it is no later than
the time that the thread itself is at, also after operations that failed. For threads and
locks this is the ownership of knowledge. An entry only holds what the threads of its visits
knew when they made them, and a thread never loses what it knew.
-/

namespace RaceWatch

open VectorClock

/-! ### Times within a bound -/

/-- No time of a clock is beyond what a bound says of its thread. -/
def VectorClock.Within {K : Nat} (bound : Nat → Nat) (c : VectorClock K) : Prop :=
  ∀ t, c.time t ≤ bound t

/-- If an epoch names a thread, the thread has come to be and has reached that point. -/
def Epoch.Within (bound : Nat → Nat) (e : Epoch) : Prop :=
  e.thread ≠ noThread → 0 < bound e.thread ∧ e.clock ≤ bound e.thread

section

variable {K t v : Nat} {bound : Nat → Nat} {c c' : VectorClock K} {s : ThreadState K} {e : Epoch}

theorem VectorClock.within_zero : (zero : VectorClock K).Within bound := fun t => by
  rw [time_zero]
  exact Nat.zero_le _

/-- A clock in which a coordinate was written. -/
theorem VectorClock.time_of_set (h : c.set t v = .ok c') (u : Nat) :
    c'.time u = if u = t then v else c.time u := by
  simp only [set] at h
  cases hs : slot? K t with
  | none => simp [hs] at h
  | some i =>
    rw [hs] at h
    obtain rfl := Except.ok.inj h
    exact time_put hs c v u

theorem VectorClock.Within.set (hc : c.Within bound) (hv : v ≤ bound t)
    (h : c.set t v = .ok c') : c'.Within bound := by
  intro u
  rw [time_of_set h]
  split
  · next hu => exact hu ▸ hv
  · exact hc u

theorem Epoch.within_of_thread_eq (h : e.thread = noThread) : e.Within bound :=
  fun h0 => absurd h h0

/-- The epoch of a thread whose clock is within a bound. -/
theorem ThreadState.Sound.within_epoch (hs : s.Sound t) (hK : K ≤ maxThread)
    (hc : s.clock.Within bound) : s.epoch.Within bound := by
  intro _
  rw [hs.thread_epoch hK, hs.clock_epoch hK]
  exact ⟨lt_of_lt_of_le hs.time_pos (hc t), hc t⟩

end

/-! ### Histories within a bound -/

namespace EpochHistory

variable {K t : Nat} {bound : Nat → Nat} {h h' : EpochHistory K} {s : ThreadState K}

/-- What a check under the epoch rule may leave behind. -/
inductive Next (h : EpochHistory K) (s : ThreadState K) : EpochHistory K → Prop
  /-- The access is in the epoch of the last one of its kind. -/
  | same : Next h s h
  /-- The reads have been shared before. -/
  | readShared {c : VectorClock K} (set_eq : h.readClock.set s.id s.epoch.clock = .ok c) :
      Next h s { h with readClock := c }
  | readExclusive : Next h s { h with read := s.epoch }
  /-- The reads become shared by the last one and this one. -/
  | readShare {c c' : VectorClock K}
      (set_last : VectorClock.zero.set h.read.thread h.read.clock = .ok c)
      (set_eq : c.set s.id s.epoch.clock = .ok c') :
      Next h s { h with read := .shared, readClock := c' }
  /-- The write settles shared reads. -/
  | writeShared : Next h s ⟨s.epoch, .empty, .zero⟩
  | writeExclusive : Next h s { h with write := s.epoch }

theorem next_of_check {a : Access} {f : Finding (EpochHistory K) K} (hf : h.check s a = .ok f) :
    h.Next s f.history := by
  simp only [check, mapError_eq_ok] at hf
  cases hk : a.kind with
  | read =>
    simp only [hk, checkRead, checkNewRead] at hf
    split at hf
    · exact Except.ok.inj hf ▸ .same
    · simp only [bind_eq_ok] at hf
      obtain ⟨races, -, hf⟩ := hf
      split at hf
      · obtain ⟨c, hc, hf⟩ := bind_eq_ok.mp hf
        exact Except.ok.inj hf ▸ .readShared hc
      · obtain ⟨known, -, hf⟩ := bind_eq_ok.mp hf
        split at hf
        · exact Except.ok.inj hf ▸ .readExclusive
        · obtain ⟨c, hc, hf⟩ := bind_eq_ok.mp hf
          obtain ⟨c', hc', hf⟩ := bind_eq_ok.mp hf
          exact Except.ok.inj hf ▸ .readShare hc hc'
  | write =>
    simp only [hk, checkWrite, checkNewWrite] at hf
    split at hf
    · exact Except.ok.inj hf ▸ .same
    · simp only [bind_eq_ok] at hf
      obtain ⟨races, -, hf⟩ := hf
      split at hf
      · exact Except.ok.inj hf ▸ .writeShared
      · obtain ⟨readers, -, hf⟩ := bind_eq_ok.mp hf
        exact Except.ok.inj hf ▸ .writeExclusive

/-- All that a history remembers is within a bound. The read clock counts also while it is
not in use. -/
structure Within (bound : Nat → Nat) (h : EpochHistory K) : Prop where
  write : h.write.Within bound
  read : h.read.Within bound
  readClock : h.readClock.Within bound

theorem within_neutral : (neutral : EpochHistory K).Within bound :=
  ⟨Epoch.within_of_thread_eq Epoch.thread_empty, Epoch.within_of_thread_eq Epoch.thread_empty,
    within_zero⟩

theorem Next.within (hn : h.Next s h') (hh : h.Within bound) (hs : s.Sound t)
    (hK : K ≤ maxThread) (hc : s.clock.Within bound) : h'.Within bound := by
  have hepoch : s.epoch.Within bound := hs.within_epoch hK hc
  have hown : s.epoch.clock ≤ bound s.id := by
    rw [hs.clock_epoch hK, hs.id_eq]
    exact hc t
  cases hn with
  | same => exact hh
  | readShared hset => exact ⟨hh.write, hh.read, hh.readClock.set hown hset⟩
  | readExclusive => exact ⟨hh.write, hepoch, hh.readClock⟩
  | readShare hlast hset =>
    -- A last read that names no thread has no slot in the read clock.
    have hread : h.read.clock ≤ bound h.read.thread := by
      by_cases h0 : h.read.thread = noThread
      · simp [VectorClock.set, slot?, h0] at hlast
      · exact (hh.read h0).2
    exact ⟨hh.write, Epoch.within_of_thread_eq Epoch.thread_shared,
      (within_zero.set hread hlast).set hown hset⟩
  | writeShared =>
    exact ⟨hepoch, Epoch.within_of_thread_eq Epoch.thread_empty, within_zero⟩
  | writeExclusive => exact ⟨hepoch, hh.read, hh.readClock⟩

end EpochHistory

namespace Rule

variable {rule : Rule} {K : Nat}

/-- All that a rule remembers of a location is within a bound. -/
def Within (bound : Nat → Nat) : (rule : Rule) → rule.History K → Prop
  | .epoch, h => EpochHistory.Within bound h
  | .precise, h => (PreciseHistory.clock h).Within bound

/-- The times of a thread that a rule has on record for a location. -/
def Records : (rule : Rule) → rule.History K → Nat → Nat → Prop
  | .epoch, (h : EpochHistory K), t, time =>
      (h.write.thread = t ∧ h.write.clock = time) ∨ (h.read.thread = t ∧ h.read.clock = time) ∨
        h.readClock.time t = time
  | .precise, (h : PreciseHistory K), t, time => h.clock.time t = time

theorem within_neutral (rule : Rule) (bound : Nat → Nat) :
    rule.Within bound (rule.neutral : rule.History K) := by
  cases rule with
  | epoch => exact EpochHistory.within_neutral
  | precise => exact within_zero

theorem Within.le {bound : Nat → Nat} {h : rule.History K} (hh : rule.Within bound h)
    {t time : Nat} (ht : t ≠ noThread) (hr : rule.Records h t time) : time ≤ bound t := by
  cases rule with
  | epoch =>
    obtain ⟨hthread, rfl⟩ | ⟨hthread, rfl⟩ | rfl := hr
    · exact hthread ▸ (EpochHistory.Within.write hh (hthread ▸ ht)).2
    · exact hthread ▸ (EpochHistory.Within.read hh (hthread ▸ ht)).2
    · exact EpochHistory.Within.readClock hh t
  | precise =>
    obtain rfl : _ = time := hr
    exact hh t

end Rule

namespace Chronicle

variable {rule : Rule} {K n : Nat} {H : Chronicle} {config : Config} {x : Address}
  {visits : List Visit} {v : Visit} {s : ThreadState K} {h : rule.History K}
  {f : Finding (rule.History K) K}

/-- What the thread of a visit knew stays within what the threads know of themselves. -/
theorem Checks.within_clock (hc : H.Checks rule x v h s f) (hl : H.Legal rule K)
    (hn : v.position < n) : f.thread.clock.Within (H.knownAt rule K n).own := by
  intro t
  obtain ⟨e, he, hact⟩ := hc.made.exists_at
  have hle := time_mono (stamp_le_knownAt_thread hl he (.inl hact) hn) t
  rw [hc.stamp_eq] at hle
  exact hle.trans (owned_knownAt n _ t)

theorem Leaves.within {entry : Entry rule K} (hle : H.Leaves config x visits entry)
    (hl : H.Legal rule K) (hn : ∀ v ∈ visits, v.position < n) :
    rule.Within (H.knownAt rule K n).own entry.history := by
  induction hle with
  | neutral => exact rule.within_neutral _
  | @check visits v entry s f _ _ checks ih =>
    have ih := ih fun w hw => hn w (List.mem_append_left _ hw)
    have hclock := checks.within_clock hl (hn v (List.mem_append_right _ List.mem_cons_self))
    rcases checks.thread_cases with ⟨rfl, hthread⟩ | ⟨rfl, -⟩
    · exact (EpochHistory.next_of_check checks.check_eq).within ih checks.sound checks.capacity
        (hthread ▸ hclock)
    · rw [Entry.found, (PreciseHistory.check_eq_ok checks.check_eq).1]
      exact hclock

end Chronicle

namespace Detector

variable {rule : Rule} {K : Nat} {d : Detector rule K} {config : Config} {tag : Nat}

/-- The times of a thread that a detector has on record: in the clocks of threads and locks
and in the entries of locations. -/
inductive Records (d : Detector rule K) (t : Nat) : Nat → Prop
  | thread {u : Nat} {s : ThreadState K} (state?_eq : d.state? u = some s) :
      Records d t (s.clock.time t)
  | lock {lock : Address} {c : VectorClock K} (clock?_eq : d.lockClock? lock = some c) :
      Records d t (c.time t)
  | entry {x : Address} {entry : Entry rule K} {time : Nat} (entry?_eq : d.entryAt? x = some entry)
      (records : rule.Records entry.history t time) : Records d t time

theorem knowledge_lock {lock : Address} {c : VectorClock K} (h : d.lockClock? lock = some c) :
    d.knowledge (.lock lock) = c := by
  have h : d.locks.clock? lock = some c := h
  rw [knowledge, Knowledge.of, h, Option.getD_some]

/-- Whatever is on record of a thread, the thread is no earlier. -/
theorem time_le_own_of_records (h : create rule K config tag = .ok d) (ops : List (Op Handle))
    {t time : Nat} (ht : t ≠ noThread) (hr : (d.run ops).Records t time) :
    time ≤ (d.run ops).knowledge.own t := by
  have hsound := sound_run h ops
  cases hr with
  | thread hs => exact Knowledge.of_thread (l := (d.run ops).locks) hs ▸ hsound.owned _ t
  | lock hc => exact knowledge_lock hc ▸ hsound.owned _ t
  | @entry x entry _ hentry hrecords =>
    have hleaves := leaves_entryOf h ops x ops.length
    have hwithin := hleaves.within (legal_chronicle h ops) fun v =>
      Chronicle.position_lt_of_mem
    rw [← knowledge_after h, after_length, entryOf_of_entryAt? hentry] at hwithin
    exact hwithin.le ht hrecords

/-- Each thread owns its coordinate. After any run, also one in which operations failed, the
cached epoch of a thread is made of its identity and its own coordinate, which is at least
1, and no time on record of the thread is later. Of a thread that has not come to be there
is no time but 0 on record. As long as nothing overflows, all other threads and all locks
know less of the thread than it does itself. -/
theorem records_le_own (h : create rule K config tag = .ok d) (ops : List (Op Handle)) :
    (∀ t s, (d.run ops).state? t = some s →
      Epoch.construct t (s.clock.time t) = .ok s.epoch ∧ 1 ≤ s.clock.time t ∧
        ∀ time, (d.run ops).Records t time → time ≤ s.clock.time t) ∧
    (∀ t, t ≠ noThread → (d.run ops).state? t = none →
      ∀ time, (d.run ops).Records t time → time = 0) ∧
    ((d.chronicle ops).NoOverflow → ∀ t s, (d.run ops).state? t = some s →
      (∀ u s', u ≠ t → (d.run ops).state? u = some s' → s'.clock.time t < s.clock.time t) ∧
        ∀ lock c, (d.run ops).lockClock? lock = some c → c.time t < s.clock.time t) := by
  have hsound := sound_run h ops
  have hknown := knowledge_after h ops ops.length
  rw [after_length] at hknown
  refine ⟨fun t s hs => ?_, fun t ht hnone time hr => ?_, fun ho t s hs => ?_⟩
  · have hthread := hsound.threads t s hs
    refine ⟨hsound.construct_epoch hs, hthread.time_pos, fun time hr => ?_⟩
    rw [← own_knowledge hs]
    exact time_le_own_of_records h ops hthread.fits.1 hr
  · have hle := time_le_own_of_records h ops ht hr
    rw [own_knowledge_of_none hnone] at hle
    exact Nat.le_zero.mp hle
  · have hahead := Chronicle.ahead_knownAt (legal_chronicle h ops) ho ops.length
    rw [← hknown] at hahead
    have hpos := hsound.own_pos hs
    rw [← own_knowledge hs]
    refine ⟨fun u s' hu hs' => ?_, fun lock c hc => ?_⟩
    · rw [← Knowledge.of_thread (l := (d.run ops).locks) hs']
      exact hahead (.thread u) t (by simpa using hu) hpos
    · rw [← knowledge_lock hc]
      exact hahead (.lock lock) t (by simp) hpos

theorem records_relay : ∃ s s', ((forThree .precise).run relay).state? 1 = some s ∧
    ((forThree .precise).run relay).state? 2 = some s' ∧
    (∀ time, ((forThree .precise).run relay).Records 1 time → time ≤ s.clock.time 1) ∧
    (∀ time, ((forThree .precise).run relay).Records 4 time → time = 0) ∧
    s'.clock.time 1 < s.clock.time 1 := by
  obtain ⟨hown, hnone, hahead⟩ := records_le_own (create_forThree .precise) relay
  obtain ⟨s, hs⟩ : ∃ s, ((forThree .precise).run relay).state? 1 = some s := ⟨_, rfl⟩
  obtain ⟨s', hs'⟩ : ∃ s', ((forThree .precise).run relay).state? 2 = some s' := ⟨_, rfl⟩
  exact ⟨s, s', hs, hs', (hown 1 s hs).2.2, hnone 4 (by decide) rfl,
    (hahead (noOverflow_relay .precise) 1 s hs).1 2 s' (by decide) hs'⟩

end Detector

end RaceWatch
