import RaceWatch.Proofs.Transcript
import RaceWatch.Proofs.Exclusion

/-!
What can be put into a program without any effect on the detection. A location that comes to
be monitored has a neutral entry, and a lock that comes to be kept has published nothing,
just as if there was no entry and no lock. So it does not matter whether they are there, and
calls that are turned away leave nothing behind but such.
-/

namespace RaceWatch

theorem map_eq_ok {ε α β : Type} {f : α → β} {x : Except ε α} {b : β} :
    x.map f = .ok b ↔ ∃ a, x = .ok a ∧ f a = b := by
  cases x <;> simp [Except.map]

theorem map_eq_error {ε α β : Type} {f : α → β} {x : Except ε α} {e : ε} :
    x.map f = .error e ↔ x = .error e := by
  cases x <;> simp [Except.map]

/-- A lock that comes to be kept has published nothing. -/
theorem LockStore.getD_clock?_touch {K : Nat} (s : LockStore K) (lock l : Address) :
    ((s.touch lock).clock? l).getD .zero = (s.clock? l).getD .zero := by
  rw [clock?_touch]
  split
  · next h => rw [h, Option.getD_some]
  · rfl

namespace Registry

variable {K : Nat} {r : Registry K} {a b : Handle} {e : Error}

/-- A new thread that is refused leaves no trace. -/
theorem register_of_error {f : Failure Error} (h : r.register.result = .error f) :
    r.register.state = r := by
  simp only [register] at h ⊢
  cases hcap : checkCapacity K with
  | error e => rfl
  | ok =>
    simp only [hcap] at h ⊢
    by_cases hfull : K < ownerOf r.size
    · rw [if_pos hfull]
      rfl
    · rw [if_neg hfull] at h ⊢
      cases hs : (ThreadState.fresh (ownerOf r.size) : Except _ (ThreadState K)) with
      | error f => exact Reply.state_halt r [] f
      | ok s => simp [hs] at h

/-- Once the giver and the receiver have been made out, only the bookkeeping can fail. -/
theorem isFatal_of_transfer {giver receiver : ThreadState K} {note : Epoch → Note}
    (h : (r.transfer giver receiver note).result = .error (.error e)) : e.isFatal = true := by
  simp only [transfer] at h
  cases htick : giver.tick with
  | ok s => simp [htick] at h
  | error f =>
    rw [htick] at h
    cases f with
    | panic cause => simp [Failure.map] at h
    | error cause =>
      obtain rfl : Error.fatal cause = e := by simpa [Failure.map] using h
      rfl

/-- A transfer that fails has taught the receiver, and that is all. -/
theorem transfer_of_error {giver receiver : ThreadState K} {note : Epoch → Note}
    {f : Failure Error} (h : (r.transfer giver receiver note).result = .error f) :
    (r.transfer giver receiver note).state = r.put (receiver.observe giver.clock) := by
  simp only [transfer] at h ⊢
  cases htick : giver.tick with
  | ok s => simp [htick] at h
  | error cause => simp only [Reply.state_halt]

/-- A fork that fails has changed nothing, or the child has learnt what the parent knows. -/
theorem fork_of_error (h : (r.fork a b).result = .error (.error e)) :
    (e.isFatal = false ∧ (r.fork a b).state = r) ∨
      e.isFatal = true ∧ ∃ s s', r.lookup a = .ok s ∧ r.lookup b = .ok s' ∧
        (r.fork a b).state = r.put (s'.observe s.clock) := by
  rcases r.lookupAlivePair_cases a b with ⟨e', he', hl⟩ | ⟨s, s', ha, hb, -, hl⟩
  · simp only [fork, hl, Reply.result_fail, Except.error.injEq, Failure.error.injEq] at h ⊢
    exact .inl ⟨h ▸ he', rfl⟩
  · simp only [fork, hl] at h ⊢
    exact .inr ⟨isFatal_of_transfer h, s, s', ha, hb, transfer_of_error h⟩

/-- A join that fails has changed nothing, or the parent has learnt what the child knows. -/
theorem join_of_error (h : (r.join a b).result = .error (.error e)) :
    (e.isFatal = false ∧ (r.join a b).state = r) ∨
      e.isFatal = true ∧ ∃ s s', r.lookup a = .ok s ∧ r.lookup b = .ok s' ∧
        (r.join a b).state = r.put (s.observe s'.clock) := by
  rcases r.lookupPair_cases a b with ⟨e', he', hl⟩ | ⟨s, s', ha, hb, -, hl⟩
  · simp only [join, hl, Reply.result_fail, Except.error.injEq, Failure.error.injEq] at h ⊢
    exact .inl ⟨h ▸ he', rfl⟩
  · simp only [join, hl] at h ⊢
    exact .inr ⟨isFatal_of_transfer h, s, s', ha, hb, transfer_of_error h⟩

theorem exit_of_error {f : Failure Error} (h : (r.exit a).result = .error f) :
    (r.exit a).state = r := by
  simp only [exit] at h ⊢
  split
  · rfl
  · next hl => simp [hl] at h

end Registry

namespace Detector

variable {rule : Rule} {K : Nat} {d d' d'' : Detector rule K} {op : Op Handle} {e : Error}

/-- Two detectors that differ at most in which of their locations have neutral entries and
which of their locks are kept without having published anything. -/
structure Matches (d d' : Detector rule K) : Prop where
  config_eq : d'.config = d.config
  registry_eq : d'.registry = d.registry
  clock_eq : ∀ lock, (d'.lockClock? lock).getD .zero = (d.lockClock? lock).getD .zero
  entryOf_eq : ∀ x, d'.entryOf x = d.entryOf x
  totalRaces_eq : d'.totalRaces = d.totalRaces

theorem Matches.refl (d : Detector rule K) : d.Matches d :=
  ⟨rfl, rfl, fun _ => rfl, fun _ => rfl, rfl⟩

theorem Matches.trans (h : d.Matches d') (h' : d'.Matches d'') : d.Matches d'' :=
  ⟨h'.config_eq.trans h.config_eq, h'.registry_eq.trans h.registry_eq,
    fun lock => (h'.clock_eq lock).trans (h.clock_eq lock),
    fun x => (h'.entryOf_eq x).trans (h.entryOf_eq x), h'.totalRaces_eq.trans h.totalRaces_eq⟩

/-! ### An operation that both are told of -/

/-- The same threads are put into both detectors. -/
theorem Matches.of_registry (h : d.Matches d') (r : Registry K) :
    Matches { d with registry := r } { d' with registry := r } :=
  ⟨h.config_eq, rfl, h.clock_eq, h.entryOf_eq, h.totalRaces_eq⟩

/-- The same threads are put into both detectors, and locks that have published the same. -/
theorem Matches.of_locks (h : d.Matches d') (r : Registry K) {locks locks' : LockStore K}
    (hclock : ∀ lock, (locks'.clock? lock).getD .zero = (locks.clock? lock).getD .zero) :
    Matches { d with locks, registry := r } { d' with locks := locks', registry := r } :=
  ⟨h.config_eq, rfl, hclock, h.entryOf_eq, h.totalRaces_eq⟩

theorem Matches.clock_touch_eq (h : d.Matches d') (lock l : Address) :
    ((d'.locks.touch lock).clock? l).getD .zero = ((d.locks.touch lock).clock? l).getD .zero := by
  rw [LockStore.getD_clock?_touch, LockStore.getD_clock?_touch]
  exact h.clock_eq l

theorem Matches.acquire (h : d.Matches d') (lock : Address) (t : Handle) :
    (d.acquire lock t).state.Matches (d'.acquire lock t).state ∧
      (d'.acquire lock t).result = (d.acquire lock t).result := by
  have hclock : (d'.locks.clock? lock).getD .zero = (d.locks.clock? lock).getD .zero :=
    h.clock_eq lock
  simp only [Detector.acquire, h.registry_eq]
  cases d.registry.lookup t with
  | error e => exact ⟨h, rfl⟩
  | ok s =>
    simp only [LockStore.acquire, hclock, Reply.state_mapState, Reply.result_mapState]
    cases s.ensureAlive with
    | error e => exact ⟨h.of_locks _ (h.clock_touch_eq lock), rfl⟩
    | ok => exact ⟨h.of_locks _ (h.clock_touch_eq lock), rfl⟩

theorem Matches.release (h : d.Matches d') (lock : Address) (t : Handle) :
    (d.release lock t).state.Matches (d'.release lock t).state ∧
      (d'.release lock t).result = (d.release lock t).result := by
  have hpublish (c : VectorClock K) (l : Address) :
      ((d'.locks.publish lock c).clock? l).getD .zero =
        ((d.locks.publish lock c).clock? l).getD .zero := by
    rw [LockStore.clock?_publish, LockStore.clock?_publish]
    split
    · rfl
    · exact h.clock_eq l
  simp only [Detector.release, h.registry_eq]
  cases d.registry.lookup t with
  | error e => exact ⟨h, rfl⟩
  | ok s =>
    simp only [LockStore.release, Reply.state_mapState, Reply.result_mapState]
    cases s.ensureAlive with
    | error e => exact ⟨h.of_locks _ (h.clock_touch_eq lock), rfl⟩
    | ok =>
      cases s.tick with
      | error f =>
        simp only [Reply.state_halt, Reply.result_halt]
        exact ⟨h.of_locks _ (hpublish _), trivial⟩
      | ok s' => exact ⟨h.of_locks _ (hpublish _), rfl⟩

theorem Matches.forgetLock (h : d.Matches d') (lock : Address) :
    (d.forgetLock lock).state.Matches (d'.forgetLock lock).state where
  config_eq := h.config_eq
  registry_eq := h.registry_eq
  clock_eq l := by
    simp only [lockClock?, Detector.forgetLock, Reply.state_mapState, LockStore.clock?_forget]
    split
    · rfl
    · exact h.clock_eq l
  entryOf_eq := h.entryOf_eq
  totalRaces_eq := h.totalRaces_eq

theorem Matches.access (h : d.Matches d') (t : Handle) (a : Access) :
    (d.access t a).state.Matches (d'.access t a).state ∧
      (d'.access t a).result = (d.access t a).result := by
  have hentry : d'.shadow.getD a.address (.neutral a.address) =
      d.shadow.getD a.address (.neutral a.address) := h.entryOf_eq a.address
  have hmonitor : Matches { d with shadow := d.shadow.monitor a.address (.neutral a.address) }
      { d with
        locks := d'.locks
        shadow := d'.shadow.monitor a.address (.neutral a.address) } :=
    ⟨rfl, rfl, h.clock_eq, fun x => by
      rw [entryOf_monitor, ← h.entryOf_eq]
      exact d'.entryOf_monitor a.address x, rfl⟩
  simp only [Detector.access, h.registry_eq, h.config_eq, h.totalRaces_eq, hentry]
  cases d.registry.lookup t with
  | error e => exact ⟨h, rfl⟩
  | ok s =>
    dsimp only
    cases s.ensureAlive with
    | error e => exact ⟨hmonitor, rfl⟩
    | ok =>
      dsimp only
      cases (d.shadow.getD a.address (.neutral a.address)).check d.config s a with
      | error f =>
        simp only [Reply.state_halt, Reply.result_halt]
        exact ⟨hmonitor, trivial⟩
      | ok checked =>
        refine ⟨⟨rfl, rfl, h.clock_eq, fun x => ?_, rfl⟩, rfl⟩
        have hx := hmonitor.entryOf_eq x
        simp only [Reply.state_done, entryOf, ShadowMemory.getD, ShadowMemory.get?_put] at hx ⊢
        split
        · rfl
        · exact hx

/-- Two detectors that match still do so after an operation that both are told of. Unless it
hands back a flag they also hand back the same. -/
theorem Matches.step (h : d.Matches d') (op : Op Handle) :
    (d.step op).state.Matches (d'.step op).state ∧
      (op.flags = false → (d'.step op).result = (d.step op).result) := by
  cases op with
  | start | fork | join | exit =>
    simp only [Detector.step, start, fork, join, exit, h.registry_eq, Reply.state_mapResult,
      Reply.state_mapState, Reply.result_mapResult, Reply.result_mapState]
    exact ⟨h.of_registry _, fun _ => trivial⟩
  | acquire lock t =>
    obtain ⟨hstate, hresult⟩ := h.acquire lock t
    exact ⟨hstate, fun _ => by simp only [Detector.step, Reply.result_mapResult, hresult]⟩
  | release lock t =>
    obtain ⟨hstate, hresult⟩ := h.release lock t
    exact ⟨hstate, fun _ => by simp only [Detector.step, Reply.result_mapResult, hresult]⟩
  | access t a =>
    obtain ⟨hstate, hresult⟩ := h.access t a
    exact ⟨hstate, fun _ => by simp only [Detector.step, Reply.result_mapResult, hresult]⟩
  | forgetLock lock => exact ⟨h.forgetLock lock, fun hflags => by simp [Op.flags] at hflags⟩
  | init x | forget x =>
    refine ⟨⟨h.config_eq, h.registry_eq, h.clock_eq, fun y => ?_, h.totalRaces_eq⟩,
      fun hflags => by simp [Op.flags] at hflags⟩
    rw [entryOf_step _ (by simp), entryOf_step _ (by simp), h.entryOf_eq]

/-! ### An operation that only one of them is told of -/

theorem matches_init (d : Detector rule K) (x : Address) :
    d.Matches (d.step (.init x)).state :=
  ⟨rfl, rfl, fun _ => rfl, fun y => by rw [entryOf_step _ (by simp), if_neg (by simp)], rfl⟩

theorem matches_touch (d : Detector rule K) (lock : Address) :
    d.Matches { d with locks := d.locks.touch lock } :=
  ⟨rfl, rfl, LockStore.getD_clock?_touch d.locks lock, fun _ => rfl, rfl⟩

/-- An access that is turned away may only have made its location be monitored. -/
theorem matches_access_of_misuse {t : Handle} {a : Access} (he : e.isFatal = false)
    (hr : (d.access t a).result = .error (.error e)) : d.Matches (d.access t a).state := by
  have hmonitor := d.matches_init a.address
  simp only [access] at hr ⊢
  cases hl : d.registry.lookup t with
  | error e' => exact .refl d
  | ok s =>
    simp only [hl] at hr ⊢
    cases hx : s.ensureAlive with
    | error e' => exact hmonitor
    | ok =>
      -- What is checked is not turned away any more.
      simp only [hx] at hr
      cases hc : (d.shadow.getD a.address (.neutral a.address)).check d.config s a with
      | ok checked => simp [hc] at hr
      | error f =>
        simp only [hc, Reply.result_halt, Except.error.injEq] at hr
        cases f with
        | panic cause => cases hr
        | error cause =>
          obtain rfl : Error.fatal cause = e := by simpa [Failure.map] using hr
          cases he

/-- To write back a thread as it was found changes nothing. -/
theorem Sound.put_of_lookup (hd : d.Sound) {h : Handle} {s : ThreadState K}
    (hs : d.registry.lookup h = .ok s) : d.registry.put s = d.registry :=
  Registry.put_self (Registry.state?_of_lookup hs)
    (hd.threads _ s (Registry.state?_of_lookup hs)).id_eq

/-- An acquire that fails has changed nothing, or the lock has come to be kept. -/
theorem Sound.acquire_of_error (hd : d.Sound) {lock : Address} {t : Handle}
    (hr : (d.acquire lock t).result = .error (.error e)) :
    (e = .foreignThread t.thread ∧ (d.acquire lock t).state = d) ∨
      (∃ u, e = .threadExited u) ∧
        (d.acquire lock t).state = { d with locks := d.locks.touch lock } := by
  simp only [acquire] at hr ⊢
  cases hl : d.registry.lookup t with
  | error e' =>
    simp only [hl, Reply.result_fail, Except.error.injEq, Failure.error.injEq] at hr ⊢
    exact .inl ⟨hr ▸ Registry.lookup_eq_error hl, rfl⟩
  | ok s =>
    simp only [hl, LockStore.acquire] at hr ⊢
    cases hx : s.exited with
    | false => simp [ThreadState.ensureAlive, hx] at hr
    | true =>
      simp only [ThreadState.ensureAlive, hx, if_true, Reply.result_mapState, Reply.result_fail,
        Except.error.injEq, Failure.error.injEq, Reply.state_mapState, Reply.state_fail,
        hd.put_of_lookup hl] at hr ⊢
      exact .inr ⟨⟨s.id, hr.symm⟩, trivial⟩

/-- A release that fails has changed nothing, or the lock has come to be kept. Or else the lock
has published what the thread knows, and only then the thread could not begin a new event. -/
theorem Sound.release_of_error (hd : d.Sound) {lock : Address} {t : Handle}
    (hr : (d.release lock t).result = .error (.error e)) :
    (e = .foreignThread t.thread ∧ (d.release lock t).state = d) ∨
      ((∃ u, e = .threadExited u) ∧
        (d.release lock t).state = { d with locks := d.locks.touch lock }) ∨
      e.isFatal = true ∧ ∃ s, d.registry.lookup t = .ok s ∧
        (d.release lock t).state = { d with locks := d.locks.publish lock s.clock } := by
  simp only [release] at hr ⊢
  cases hl : d.registry.lookup t with
  | error e' =>
    simp only [hl, Reply.result_fail, Except.error.injEq, Failure.error.injEq] at hr ⊢
    exact .inl ⟨hr ▸ Registry.lookup_eq_error hl, rfl⟩
  | ok s =>
    simp only [hl, LockStore.release] at hr ⊢
    cases hx : s.exited with
    | true =>
      simp only [ThreadState.ensureAlive, hx, if_true, Reply.result_mapState, Reply.result_fail,
        Except.error.injEq, Failure.error.injEq, Reply.state_mapState, Reply.state_fail,
        hd.put_of_lookup hl] at hr ⊢
      exact .inr (.inl ⟨⟨s.id, hr.symm⟩, trivial⟩)
    | false =>
      simp only [ThreadState.ensureAlive_eq_ok.mpr hx, Reply.result_mapState] at hr ⊢
      cases htick : s.tick with
      | ok s' => simp [htick] at hr
      | error f =>
        simp only [htick, Reply.result_halt, Reply.state_mapState, Reply.state_halt,
          hd.put_of_lookup hl, Except.error.injEq] at hr ⊢
        cases f with
        | panic cause => simp [Failure.map] at hr
        | error cause =>
          obtain rfl : Error.fatal cause = e := by simpa [Failure.map] using hr
          exact .inr (.inr ⟨rfl, s, rfl, rfl⟩)

/-- An operation that is turned away as a misuse leaves a detector that matches. -/
theorem Sound.matches_of_misuse (hd : d.Sound) (he : e.isFatal = false)
    (hr : (d.step op).result = .error (.error e)) : d.Matches (d.step op).state := by
  cases op with
  | start =>
    have hr : d.registry.register.result = .error (.error e) := map_eq_error.mp hr
    simp only [step, start, Reply.state_mapResult, Reply.state_mapState,
      Registry.register_of_error hr]
    exact .refl d
  | fork p c =>
    have hr : (d.registry.fork p c).result = .error (.error e) := map_eq_error.mp hr
    rcases Registry.fork_of_error hr with ⟨-, hstate⟩ | ⟨hfatal, -⟩
    · simp only [step, fork, Reply.state_mapResult, Reply.state_mapState, hstate]
      exact .refl d
    · simp [hfatal] at he
  | join p c =>
    have hr : (d.registry.join p c).result = .error (.error e) := map_eq_error.mp hr
    rcases Registry.join_of_error hr with ⟨-, hstate⟩ | ⟨hfatal, -⟩
    · simp only [step, join, Reply.state_mapResult, Reply.state_mapState, hstate]
      exact .refl d
    · simp [hfatal] at he
  | exit t =>
    have hr : (d.registry.exit t).result = .error (.error e) := map_eq_error.mp hr
    simp only [step, exit, Reply.state_mapResult, Reply.state_mapState,
      Registry.exit_of_error hr]
    exact .refl d
  | acquire lock t =>
    rw [step, Reply.state_mapResult]
    rcases hd.acquire_of_error (map_eq_error.mp hr) with ⟨-, hstate⟩ | ⟨-, hstate⟩
    · rw [hstate]
      exact .refl d
    · rw [hstate]
      exact d.matches_touch lock
  | release lock t =>
    rw [step, Reply.state_mapResult]
    rcases hd.release_of_error (map_eq_error.mp hr) with ⟨-, hstate⟩ | ⟨-, hstate⟩ | ⟨hfatal, -⟩
    · rw [hstate]
      exact .refl d
    · rw [hstate]
      exact d.matches_touch lock
    · simp [hfatal] at he
  | access t a => exact matches_access_of_misuse he (map_eq_error.mp hr)
  | forgetLock | init | forget => cases hr

end Detector

/-! ### Programs with more acts in between -/

namespace Session

variable {rule : Rule} {K : Nat} {s s' : Session K} {d d' : Detector rule K} {a : Act Handle K}
  {op : Op Handle}

/-- An act that has no part in the detection: a look at the state, the start of the monitoring
of a location, or a call that is turned away as a misuse, which is a thread of another
detector, a thread that would fork or join itself, one that has exited, or one more thread than
there is room for. -/
inductive Idle (s : Session K) (a : Act Handle K) : Prop
  | look (op?_eq : a.op? = none) (plain : a.meddles = false)
  | init {x : Address} (op?_eq : a.op? = some (.init x))
  | misuse {e : Error} (outcome?_eq : s.outcome? a = some (.error (.error e)))
      (not_fatal : e.isFatal = false)

/-- Two sessions with one detector each and with the same cells, of which the detectors
match. -/
structure Parallel (s s' : Session K) (d d' : Detector rule K) : Prop where
  watches : s.Watches d
  watches' : s'.Watches d'
  sound : d.Sound
  sound' : d'.Sound
  detectors_match : d.Matches d'
  cells_eq : ∀ x : Address, s'.cells[x]? = s.cells[x]?

/-- Only an operation fails. -/
theorem exists_op_of_error {f : Failure Error} (h : s.outcome? a = some (.error f)) :
    ∃ op, a.op? = some op := by
  cases a with
  | call | load | store => exact ⟨_, rfl⟩
  | «recall» i thread name? =>
    obtain ⟨r, hr, hf⟩ := Option.map_eq_some_iff.mp h
    obtain ⟨⟨rule, d⟩, -, hr⟩ := Option.bind_eq_some_iff.mp hr
    obtain rfl := Option.some.inj hr
    cases hh : d.registry.handle? thread <;> simp [hh] at hf
  | observe | look => cases h

/-- Only an access writes to a cell. -/
theorem stored?_of_op? (hop : a.op? = some op) (hne : ∀ t b, op ≠ .access t b) (x : Address) :
    a.stored? x = none := by
  cases a with
  | store i t cell value => exact absurd (Option.some.inj hop).symm (hne _ _)
  | call | load | «recall» | observe | look => rfl

/-- An act that one of the sessions does alone and that is idle there. -/
theorem Parallel.idle (h : s.Parallel s' d d') (hidle : s'.Idle a) :
    ∃ d', s.Parallel (s'.next a) d d' := by
  have hafter {op : Op Handle} {result : Except (Failure Error) Value}
      (htells : s'.Tells d' a op result) (hmatch : d'.Matches (d'.step op).state)
      (hwritten : ∀ x, a.written? x result = none) :
      s.Parallel (s'.next a) d (d'.step op).state :=
    ⟨h.watches, htells.watches, h.sound, (h.sound'.follows_step op).sound h.sound',
      h.detectors_match.trans hmatch, fun x => by
        rw [htells.cells_eq, hwritten, Option.none_or, h.cells_eq]⟩
  cases hidle with
  | look hop hplain =>
    obtain ⟨hw, hcells⟩ := next_of_op?_eq_none h.watches' hop hplain
    exact ⟨d', h.watches, hw, h.sound, h.sound', h.detectors_match, fun x => by
      rw [hcells, h.cells_eq]⟩
  | @init x hop =>
    cases hout : s'.outcome? a with
    | none =>
      rw [next_of_outcome?_eq_none hout]
      exact ⟨d', h⟩
    | some result =>
      exact ⟨_, hafter (tells_of_op? h.watches' hop hout) (d'.matches_init x) fun y =>
        Act.written?_eq_none (stored?_of_op? hop (by simp) y) result⟩
  | misuse hout he =>
    obtain ⟨op, hop⟩ := exists_op_of_error hout
    have htells := tells_of_op? h.watches' hop hout
    exact ⟨_, hafter htells (h.sound'.matches_of_misuse he ((htells.error_iff _).mp rfl))
      fun _ => rfl⟩

/-- An act that both sessions do hands back the same in both of them, unless that is a flag. -/
theorem Parallel.outcome?_eq (h : s.Parallel s' d d') (hop : a.op? = some op)
    (hflags : op.flags = false) : s'.outcome? a = s.outcome? a :=
  outcome?_congr h.watches h.watches' hop ((h.detectors_match.step op).2 hflags)
    fun _ _ _ => h.cells_eq _

/-- An act that both sessions do. -/
theorem Parallel.next (h : s.Parallel s' d d') (hplain : a.meddles = false) :
    ∃ d d' : Detector rule K, (s.next a).Parallel (s'.next a) d d' := by
  cases hop : a.op? with
  | none =>
    obtain ⟨hw, hcells⟩ := next_of_op?_eq_none h.watches hop hplain
    obtain ⟨hw', hcells'⟩ := next_of_op?_eq_none h.watches' hop hplain
    exact ⟨d, d', hw, hw', h.sound, h.sound', h.detectors_match, fun x => by
      rw [hcells, hcells', h.cells_eq]⟩
  | some op =>
    have hafter {result result' : Except (Failure Error) Value} (htells : s.Tells d a op result)
        (htells' : s'.Tells d' a op result')
        (hwritten : ∀ x, a.written? x result' = a.written? x result) :
        (s.next a).Parallel (s'.next a) (d.step op).state (d'.step op).state :=
      ⟨htells.watches, htells'.watches, (h.sound.follows_step op).sound h.sound,
        (h.sound'.follows_step op).sound h.sound', (h.detectors_match.step op).1, fun x => by
          rw [htells.cells_eq, htells'.cells_eq, hwritten, h.cells_eq]⟩
    cases hflags : op.flags with
    | false =>
      have hsame := h.outcome?_eq hop hflags
      cases hout : s.outcome? a with
      | none =>
        rw [next_of_outcome?_eq_none hout, next_of_outcome?_eq_none (hsame.trans hout)]
        exact ⟨d, d', h⟩
      | some result =>
        exact ⟨_, _, hafter (tells_of_op? h.watches hop hout)
          (tells_of_op? h.watches' hop (hsame.trans hout)) fun _ => rfl⟩
    | true =>
      cases a with
      | call i op' name? =>
        obtain rfl := Option.some.inj hop
        by_cases hi : i = 0
        · subst hi
          exact ⟨_, _, hafter (tells_call h.watches (outcome?_call h.watches op' name?))
            (tells_call h.watches' (outcome?_call h.watches' op' name?)) fun x => by
              rw [Act.written?_eq_none rfl, Act.written?_eq_none rfl]⟩
        · have hout : s.outcome? (.call i op' name?) = none := by
            simp [outcome?, act?, call?_eq_none h.watches hi]
          have hout' : s'.outcome? (.call i op' name?) = none := by
            simp [outcome?, act?, call?_eq_none h.watches' hi]
          rw [next_of_outcome?_eq_none hout, next_of_outcome?_eq_none hout']
          exact ⟨d, d', h⟩
      | load | store =>
        obtain rfl := Option.some.inj hop
        simp [Op.flags] at hflags
      | «recall» | observe | look => simp [Act.op?] at hop

/-- The acts of a program that are its own, where others are marked to stand in between. -/
def own (padded : List (Bool × Act Handle K)) : List (Act Handle K) :=
  (padded.filter (·.1)).map (·.2)

/-- A program and the same program with idle acts in between stay side by side. -/
theorem Parallel.run (h : s.Parallel s d d) {padded : List (Bool × Act Handle K)}
    (hplain : ∀ a, (true, a) ∈ padded → a.meddles = false)
    (hidle : ∀ n a, padded[n]? = some (false, a) → (s.after (padded.map (·.2)) n).Idle a)
    (n : Nat) : ∃ d d' : Detector rule K,
      (s.run (own (padded.take n))).Parallel (s.after (padded.map (·.2)) n) d d' := by
  induction n with
  | zero => exact ⟨d, d, h⟩
  | succ n ih =>
    obtain ⟨d, d', h⟩ := ih
    cases hn : padded[n]? with
    | none =>
      rw [List.take_add_one, hn, Option.toList_none, List.append_nil,
        after_succ_of_none s (by rw [List.getElem?_map, hn]; rfl)]
      exact ⟨d, d', h⟩
    | some marked =>
      obtain ⟨mark, a⟩ := marked
      have hacts : (padded.map (·.2))[n]? = some a := by rw [List.getElem?_map, hn]; rfl
      rw [after_succ s hacts, List.take_add_one, hn, Option.toList_some]
      cases mark with
      | true =>
        have hown : own (padded.take n ++ [(true, a)]) = own (padded.take n) ++ [a] := by
          simp [own]
        rw [hown, run_concat]
        exact h.next (hplain a (List.mem_of_getElem? hn))
      | false =>
        have hown : own (padded.take n ++ [(false, a)]) = own (padded.take n) := by simp [own]
        rw [hown]
        obtain ⟨d'', h⟩ := h.idle (hidle n a hn)
        exact ⟨d, d'', h⟩

/-- Idle acts are invisible to the detection. Between the acts of a program that has one
detector, any number of idle acts are put in. Then whatever act comes next hands back what it
hands back without them, unless it tells whether a location or a lock was kept before. And at
each moment all threads are in the same states, each address has the same races counted and
kept, the total is the same, and so is each cell. What the detector keeps differs at most in
neutral entries and in locks that have published nothing. -/
theorem idle_acts_invisible {config : Config} {cells : List (Address × Int)}
    (h : create K [(rule, config)] cells = .ok s) {padded : List (Bool × Act Handle K)}
    (hplain : ∀ a, (true, a) ∈ padded → a.meddles = false)
    (hidle : ∀ n a, padded[n]? = some (false, a) → (s.after (padded.map (·.2)) n).Idle a)
    (n : Nat) :
    (∀ a op, a.op? = some op → op.flags = false →
      (s.after (padded.map (·.2)) n).outcome? a = (s.run (own (padded.take n))).outcome? a) ∧
    (∀ x : Address, (s.after (padded.map (·.2)) n).cells[x]? =
      (s.run (own (padded.take n))).cells[x]?) ∧
    ∃ d d' : Detector rule K, (s.run (own (padded.take n))).Watches d ∧
      (s.after (padded.map (·.2)) n).Watches d' ∧ (∀ t, d'.state? t = d.state? t) ∧
      (∀ x, d'.raceCount x = d.raceCount x ∧ d'.raceEvents x = d.raceEvents x) ∧
      d'.totalRaces = d.totalRaces ∧ (∀ x, d'.entryOf x = d.entryOf x) ∧
      ∀ lock, (d'.lockClock? lock).getD .zero = (d.lockClock? lock).getD .zero := by
  obtain ⟨d₀, hd₀, hw₀, -⟩ := create_eq_ok h
  have hsound := Detector.sound_create hd₀
  obtain ⟨d, d', hpar⟩ :=
    Parallel.run ⟨hw₀, hw₀, hsound, hsound, .refl d₀, fun _ => rfl⟩ hplain hidle n
  have hmatch := hpar.detectors_match
  refine ⟨fun a op hop hflags => hpar.outcome?_eq hop hflags, hpar.cells_eq, d, d',
    hpar.watches, hpar.watches', fun t => ?_, fun x => ?_, hmatch.totalRaces_eq,
    hmatch.entryOf_eq, hmatch.clock_eq⟩
  · rw [Detector.state?, hmatch.registry_eq, Detector.state?]
  · rw [Detector.raceCount_eq, Detector.raceCount_eq, Detector.raceEvents_eq,
      Detector.raceEvents_eq, hmatch.entryOf_eq]
    exact ⟨rfl, rfl⟩

/-- A thread exits, and then another one writes to the cell. In between one more thread is asked
for, the cell comes to be monitored, and the thread that has exited takes a lock. -/
def crowded : List (Bool × Act Handle 2) :=
  [(true, .call 0 .start none), (true, .call 0 .start none), (false, .call 0 .start none),
    (false, .call 0 (.init 7) none), (true, .call 0 (.exit ⟨0, 1⟩) none),
    (false, .call 0 (.acquire 9 ⟨0, 1⟩) none), (true, .store 0 ⟨0, 2⟩ 7 1)]

theorem idle_of_crowded {n : Nat} {a : Act Handle 2} (hn : crowded[n]? = some (false, a)) :
    ((counting .precise).after (crowded.map (·.2)) n).Idle a := by
  have hlt : n < 7 := (List.getElem?_eq_some_iff.mp hn).1
  interval_cases n <;> simp [crowded] at hn <;> subst hn
  · exact .misuse (e := .capacityExceeded 2) rfl rfl
  · exact .init rfl
  · exact .misuse (e := .threadExited 1) rfl rfl

theorem crowded_out : ((counting .precise).after (crowded.map (·.2)) 6).outcome?
      (.store 0 ⟨0, 2⟩ 7 1) = some (.ok .unit) ∧
    ((counting .precise).after (crowded.map (·.2)) 7).cells[7]? = some 1 := by
  have hplain : ∀ a, (true, a) ∈ crowded → a.meddles = false := by simp [crowded, Act.meddles]
  have hidle : ∀ n a, crowded[n]? = some (false, a) →
      ((counting .precise).after (crowded.map (·.2)) n).Idle a := fun _ _ => idle_of_crowded
  constructor
  · rw [(idle_acts_invisible (create_counting .precise) hplain hidle 6).1 _ _ rfl rfl]
    rfl
  · rw [(idle_acts_invisible (create_counting .precise) hplain hidle 7).2.1 7]
    rfl

end Session

end RaceWatch
