import RaceWatch.Proofs.ClockLattice
import RaceWatch.Proofs.Ownership
import RaceWatch.Proofs.Ticks
import RaceWatch.Proofs.Verdict

/-!
Locks that are acquired before they are released. A release puts the clock of its thread in the
place of what the lock had published, and this drops what others had published if the thread does
not know of it. A thread that has acquired the lock since its latest release does know of it. So
where every release comes after such an acquire, the lock loses nothing, and to replace its clock
is to merge into it.
-/

namespace RaceWatch

open VectorClock

namespace Op

/-- The thread that acquires a lock. -/
def acquirer? (lock : Address) : Op Handle → Option Nat
  | .acquire l t => if l = lock then some t.thread else none
  | _ => none

/-- The thread that releases a lock. -/
def releaser? (lock : Address) : Op Handle → Option Nat
  | .release l t => if l = lock then some t.thread else none
  | _ => none

variable {lock : Address} {op : Op Handle} {t : Nat}

theorem exists_acquire (h : op.acquirer? lock = some t) :
    ∃ u : Handle, op = .acquire lock u ∧ u.thread = t := by
  cases op with
  | acquire l u =>
    obtain ⟨rfl, ht⟩ := Option.ite_none_right_eq_some.mp h
    exact ⟨u, rfl, Option.some.inj ht⟩
  | start | fork | join | exit | release | forgetLock | access | init | forget =>
    simp [acquirer?] at h

theorem exists_release (h : op.releaser? lock = some t) :
    ∃ u : Handle, op = .release lock u ∧ u.thread = t := by
  cases op with
  | release l u =>
    obtain ⟨rfl, ht⟩ := Option.ite_none_right_eq_some.mp h
    exact ⟨u, rfl, Option.some.inj ht⟩
  | start | fork | join | exit | acquire | forgetLock | access | init | forget =>
    simp [releaser?] at h

end Op

/-- The thread that acquires a lock, if it succeeds. -/
def Event.acquirer? (lock : Address) (e : Event) : Option Nat :=
  if e.succeeded then e.op.acquirer? lock else none

/-- The thread that releases a lock, if it succeeds. -/
def Event.releaser? (lock : Address) (e : Event) : Option Nat :=
  if e.succeeded then e.op.releaser? lock else none

namespace Chronicle

/-- The thread that acquires a lock in the operation at a position. -/
def acquirer? (H : Chronicle) (lock : Address) (i : Nat) : Option Nat :=
  H[i]?.bind (·.acquirer? lock)

/-- The thread that releases a lock in the operation at a position. -/
def releaser? (H : Chronicle) (lock : Address) (i : Nat) : Option Nat :=
  H[i]?.bind (·.releaser? lock)

/-- A lock is never forgotten, and whoever releases it has acquired it since the latest release
before, if there was one. -/
def Disciplined (H : Chronicle) (lock : Address) : Prop :=
  (∀ e ∈ H, e.op ≠ .forgetLock lock) ∧
    ∀ j < H.length, H.releaser? lock j ≠ none →
      ∃ i < j, H.acquirer? lock i = H.releaser? lock j ∧
        ∀ k < j, i < k → H.releaser? lock k = none

instance (H : Chronicle) (lock : Address) : Decidable (H.Disciplined lock) :=
  inferInstanceAs (Decidable (_ ∧ _))

variable {H : Chronicle} {lock : Address} {rule : Rule} {K i j n t : Nat} {e : Event}

theorem exists_acquire (h : H.acquirer? lock i = some t) :
    ∃ (e : Event) (u : Handle), H.At i e ∧ e.succeeded = true ∧ e.op = .acquire lock u ∧
      u.thread = t := by
  obtain ⟨e, he, ht⟩ := Option.bind_eq_some_iff.mp h
  obtain ⟨hs, ht⟩ := Option.ite_none_right_eq_some.mp ht
  obtain ⟨u, hop, hu⟩ := Op.exists_acquire ht
  exact ⟨e, u, ⟨he, Event.effective_of_succeeded hs⟩, hs, hop, hu⟩

theorem exists_release (h : H.releaser? lock i = some t) :
    ∃ (e : Event) (u : Handle), H.At i e ∧ e.succeeded = true ∧ e.op = .release lock u ∧
      u.thread = t := by
  obtain ⟨e, he, ht⟩ := Option.bind_eq_some_iff.mp h
  obtain ⟨hs, ht⟩ := Option.ite_none_right_eq_some.mp ht
  obtain ⟨u, hop, hu⟩ := Op.exists_release ht
  exact ⟨e, u, ⟨he, Event.effective_of_succeeded hs⟩, hs, hop, hu⟩

theorem At.releaser?_eq {u : Handle} (h : H.At i e) (hs : e.succeeded = true)
    (hop : e.op = .release lock u) : H.releaser? lock i = some u.thread := by
  rw [releaser?, h.1, Option.bind_some, Event.releaser?, if_pos hs, hop, Op.releaser?, if_pos rfl]

/-! ### What a release publishes and an acquire learns -/

theorem lock_knownAt_of_release {u : Handle} (h : H.At n e) (hop : e.op = .release lock u) :
    H.knownAt rule K (n + 1) (.lock lock) = H.knownAt rule K n (.thread u.thread) := by
  rw [knownAt_succ h.1, Knowledge.follow_of_effective h.2, Knowledge.tick?_lock, hop,
    Knowledge.pass, Knowledge.replace_target]

theorem lock_le_knownAt_of_acquire {u : Handle} (h : H.At n e) (hop : e.op = .acquire lock u) :
    H.knownAt rule K n (.lock lock) ≤ H.knownAt rule K (n + 1) (.thread u.thread) := by
  rw [knownAt_succ h.1, Knowledge.follow_of_effective h.2]
  refine le_trans ?_ (Knowledge.le_tick? _ _ _)
  exact Knowledge.source_le_pass _ (by rw [hop]; rfl) (by rw [hop]; rfl)

/-! ### The chain of critical sections -/

/-- Where nobody releases a disciplined lock, nothing replaces what it has published. -/
theorem Disciplined.replaces_eq (hd : H.Disciplined lock) (ho : H.NoOverflow) (h : H.At i e)
    (hnone : H.releaser? lock i = none) : e.op.replaces lock = false := by
  have hmem : e ∈ H := List.mem_of_getElem? h.1
  have hs := Event.succeeded_of_effective h.2 (ho e hmem)
  cases hop : e.op with
  | release l u =>
    refine beq_eq_false_iff_ne.mpr ?_
    rintro rfl
    simp [h.releaser?_eq hs hop] at hnone
  | forgetLock l =>
    refine beq_eq_false_iff_ne.mpr ?_
    rintro rfl
    exact hd.1 e hmem hop
  | start | fork | join | exit | acquire | access | init | forget => rfl

/-- Whoever releases a disciplined lock knows all that the lock has published. It has learnt it
when it acquired the lock, and since then the lock has published nothing else. -/
theorem Disciplined.lock_le_releaser (hd : H.Disciplined lock) (ho : H.NoOverflow)
    (h : H.releaser? lock j = some t) :
    H.knownAt rule K j (.lock lock) ≤ H.knownAt rule K j (.thread t) := by
  obtain ⟨e, u, he, -⟩ := exists_release h
  have hj : j < H.length := (List.getElem?_eq_some_iff.mp he.1).1
  obtain ⟨i, hij, hi, hlatest⟩ := hd.2 j hj (by simp [h])
  obtain ⟨f, v, hf, -, hop, rfl⟩ := exists_acquire (hi.trans h)
  calc H.knownAt rule K j (.lock lock)
      = H.knownAt rule K (i + 1) (.lock lock) :=
        lock_knownAt_eq hij fun k g hk hkj hg => hd.replaces_eq ho hg (hlatest k hkj hk)
    _ = H.knownAt rule K i (.lock lock) :=
        lock_knownAt_eq i.le_succ fun k g hk hki hg => by
          obtain rfl : k = i := by omega
          rw [hf.unique hg] at hop
          rw [hop]
          rfl
    _ ≤ H.knownAt rule K (i + 1) (.thread v.thread) := lock_le_knownAt_of_acquire hf hop
    _ ≤ H.knownAt rule K j (.thread v.thread) := thread_knownAt_mono hij _

/-- What a disciplined lock has published never gets less. -/
theorem Disciplined.lock_knownAt_mono (hd : H.Disciplined lock) (ho : H.NoOverflow)
    (hij : i ≤ j) : H.knownAt rule K i (.lock lock) ≤ H.knownAt rule K j (.lock lock) := by
  induction j, hij using Nat.le_induction with
  | base => exact le_rfl
  | succ j _ ih =>
    refine ih.trans ?_
    cases hr : H.releaser? lock j with
    | none =>
      refine (lock_knownAt_eq j.le_succ fun k g hk hkj hg => ?_).ge
      obtain rfl : k = j := by omega
      exact hd.replaces_eq ho hg hr
    | some t =>
      obtain ⟨e, u, he, -, hop, rfl⟩ := exists_release hr
      rw [lock_knownAt_of_release he hop]
      exact hd.lock_le_releaser ho hr

/-- Whoever acquires a disciplined lock learns what each thread knew that has released it
before. -/
theorem Disciplined.releaser_le_acquirer (hd : H.Disciplined lock) (ho : H.NoOverflow) {u : Nat}
    (hij : i < j) (hi : H.releaser? lock i = some t) (hj : H.acquirer? lock j = some u) :
    H.knownAt rule K i (.thread t) ≤ H.knownAt rule K (j + 1) (.thread u) := by
  obtain ⟨e, v, he, -, hop, rfl⟩ := exists_release hi
  obtain ⟨f, w, hf, -, hop', rfl⟩ := exists_acquire hj
  calc H.knownAt rule K i (.thread v.thread)
      = H.knownAt rule K (i + 1) (.lock lock) := (lock_knownAt_of_release he hop).symm
    _ ≤ H.knownAt rule K j (.lock lock) := hd.lock_knownAt_mono ho hij
    _ ≤ H.knownAt rule K (j + 1) (.thread w.thread) := lock_le_knownAt_of_acquire hf hop'

end Chronicle

namespace Detector

variable {rule : Rule} {K : Nat} {d : Detector rule K} {config : Config} {tag i t : Nat}
  {lock : Address} {ops : List (Op Handle)}

theorem isSome_lockClock?_after {m n : Nat} (hmn : m ≤ n)
    (hkept : ∀ e ∈ d.chronicle ops, e.op ≠ .forgetLock lock)
    (h : ((d.after ops m).lockClock? lock).isSome = true) :
    ((d.after ops n).lockClock? lock).isSome = true := by
  induction n, hmn using Nat.le_induction with
  | base => exact h
  | succ n _ ih =>
    cases hop : ops[n]? with
    | none => rwa [after_succ_of_none d hop]
    | some op =>
      have hevent := getElem?_chronicle d ops n
      rw [hop, Option.map_some] at hevent
      rw [after_succ d hop, isSome_lockClock?_step, ih]
      cases op with
      | acquire | release => rfl
      | forgetLock l =>
        have hne : l ≠ lock := by
          rintro rfl
          exact hkept _ (List.mem_of_getElem? hevent) rfl
        exact bne_iff_ne.mpr hne
      | start | fork | join | exit | access | init | forget => rfl

/-- What a release leaves behind that succeeds. -/
theorem release_of_ok {u : Handle} {v : Value} (hr : (d.step (.release lock u)).result = .ok v) :
    ∃ s, d.state? u.thread = some s ∧
      (d.step (.release lock u)).state.lockClock? lock = some s.clock := by
  simp only [step, release, Reply.state_mapResult, Reply.result_mapResult] at hr ⊢
  cases hl : d.registry.lookup u with
  | error e => simp [hl, Except.map] at hr
  | ok s =>
    simp only [hl, LockStore.release] at hr ⊢
    refine ⟨s, Registry.state?_of_lookup hl, ?_⟩
    cases hx : s.ensureAlive with
    | error e => simp [hx, Except.map] at hr
    | ok =>
      simp only [hx] at hr ⊢
      cases htick : s.tick with
      | error f => simp [htick, Except.map] at hr
      | ok s' => exact (LockStore.clock?_publish _ _ _ _).trans (if_pos rfl)

/-- A thread that an operation names which takes effect has come to be. -/
theorem exists_state_of_named (h : create rule K config tag = .ok d) {e : Event} {u : Handle}
    (he : (d.chronicle ops).At i e) (hu : u ∈ e.op.threads) {n : Nat} (hn : i ≤ n) :
    ∃ s, (d.after ops n).state? u.thread = some s := by
  refine exists_state_of_own_pos ?_
  rw [knowledge_after h]
  exact lt_of_lt_of_le ((legal_chronicle h ops i e he).known u hu)
    (time_mono (Chronicle.thread_knownAt_mono hn u.thread) u.thread)

/-- Publishing by copy loses nothing under lock discipline. In a run without overflow a lock is
never forgotten, and whoever releases it has acquired it since the latest release before. Then the
clock of the lock never decreases. Each release leaves there the clock of its thread, which is the
same as that clock merged into the one before. And after each acquire the clock of the thread
dominates the clock of each thread that has released the lock before, at its release. -/
theorem publishing_loses_nothing (h : create rule K config tag = .ok d)
    (ho : (d.chronicle ops).NoOverflow) (hd : (d.chronicle ops).Disciplined lock) :
    (∀ m n c, m ≤ n → (d.after ops m).lockClock? lock = some c →
      ∃ c', (d.after ops n).lockClock? lock = some c' ∧ c ≤ c') ∧
    (∀ n t, (d.chronicle ops).releaser? lock n = some t →
      ∃ s, (d.after ops n).state? t = some s ∧
        (d.after ops (n + 1)).lockClock? lock = some s.clock ∧
        s.clock = (((d.after ops n).lockClock? lock).getD .zero).merge s.clock) ∧
    (∀ m n t u, m < n → (d.chronicle ops).releaser? lock m = some t →
      (d.chronicle ops).acquirer? lock n = some u →
      ∃ s s', (d.after ops m).state? t = some s ∧ (d.after ops (n + 1)).state? u = some s' ∧
        s.clock ≤ s'.clock) := by
  refine ⟨fun m n c hmn hc => ?_, fun n t ht => ?_, fun m n t u hmn ht hu => ?_⟩
  · have hsome := isSome_lockClock?_after hmn hd.1 (hc ▸ rfl)
    obtain ⟨c', hc'⟩ := Option.isSome_iff_exists.mp hsome
    refine ⟨c', hc', ?_⟩
    rw [← knowledge_lock hc, ← knowledge_lock hc', knowledge_after h, knowledge_after h]
    exact hd.lock_knownAt_mono ho hmn
  · obtain ⟨e, v, he, hs, hop, rfl⟩ := Chronicle.exists_release ht
    obtain ⟨hresult, hafter⟩ := step_of_getElem? he.1
    rw [hop] at hresult hafter
    obtain ⟨w, hw⟩ := Event.exists_ok_of_succeeded hs
    obtain ⟨s, hstate, hclock⟩ := release_of_ok (hresult.symm.trans hw)
    refine ⟨s, hstate, hafter ▸ hclock, (merge_eq_right ?_).symm⟩
    rw [← Knowledge.of_thread (l := (d.after ops n).locks) hstate]
    change (d.after ops n).knowledge (.lock lock) ≤ (d.after ops n).knowledge (.thread v.thread)
    rw [knowledge_after h]
    exact hd.lock_le_releaser ho ht
  · obtain ⟨e, v, he, -, hop, rfl⟩ := Chronicle.exists_release ht
    obtain ⟨f, w, hf, -, hop', rfl⟩ := Chronicle.exists_acquire hu
    obtain ⟨s, hstate⟩ := exists_state_of_named h he (u := v) (by simp [hop, Op.threads]) le_rfl
    obtain ⟨s', hstate'⟩ :=
      exists_state_of_named h hf (u := w) (by simp [hop', Op.threads]) n.le_succ
    refine ⟨s, s', hstate, hstate', ?_⟩
    rw [clock_after h hstate, clock_after h hstate']
    exact hd.releaser_le_acquirer ho hmn ht hu

/-- Two threads take turns at one lock. The first one holds another lock across its release, and
in between a handle of another detector is turned away. -/
def sections : List (Op Handle) :=
  [.start, .start, .acquire 1 ⟨0, 1⟩, .acquire 2 ⟨0, 1⟩, .release 1 ⟨0, 1⟩, .release 1 ⟨5, 2⟩,
    .acquire 1 ⟨0, 2⟩, .release 2 ⟨0, 1⟩, .release 1 ⟨0, 2⟩, .acquire 1 ⟨0, 1⟩]

theorem publishing_sections :
    ((forThree .epoch).chronicle sections).NoOverflow ∧
    ((forThree .epoch).chronicle sections).Disciplined 1 ∧
    (∃ s, ((forThree .epoch).after sections 8).state? 2 = some s ∧
      ((forThree .epoch).after sections 9).lockClock? 1 = some s.clock ∧
      s.clock =
        ((((forThree .epoch).after sections 8).lockClock? 1).getD .zero).merge s.clock) ∧
    ∃ s s', ((forThree .epoch).after sections 4).state? 1 = some s ∧
      ((forThree .epoch).after sections 7).state? 2 = some s' ∧ s.clock ≤ s'.clock := by
  have ho : ((forThree .epoch).chronicle sections).NoOverflow := by decide
  have hd : ((forThree .epoch).chronicle sections).Disciplined 1 := by decide
  obtain ⟨-, hrelease, hacquire⟩ := publishing_loses_nothing (create_forThree .epoch) ho hd
  exact ⟨ho, hd, hrelease 8 2 (by decide), hacquire 4 6 1 2 (by decide) (by decide) (by decide)⟩

end Detector

end RaceWatch
