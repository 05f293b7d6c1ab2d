import RaceWatch.Proofs.Findings
import RaceWatch.Proofs.Renaming
import RaceWatch.Proofs.Verdict

/-!
The same run under other names. Two detectors keep the same up to the names of the threads. Told
of an operation and of the renamed one they hand back the same, up to names, find the same races
and keep the same afterwards. This holds of every operation but the start of a thread, whose name
is given by the detector, and it holds of operations that fail as well.
-/

namespace RaceWatch

open VectorClock

/-! ### Errors and handles -/

def Epoch.rename (p : Nat → Nat) (e : Epoch) : Epoch := .pack (p e.thread) e.clock

def Fatal.rename (p : Nat → Nat) : Fatal → Fatal
  | .threadOutOfRange thread capacity => .threadOutOfRange (p thread) capacity
  | .epochOutOfRange epoch capacity => .epochOutOfRange (epoch.rename p) capacity
  | .clockOverflow thread clock => .clockOverflow (p thread) clock

def Error.rename (p : Nat → Nat) : Error → Error
  | .invalidCapacity capacity => .invalidCapacity capacity
  | .capacityExceeded capacity => .capacityExceeded capacity
  | .threadExited thread => .threadExited (p thread)
  | .foreignThread thread => .foreignThread (p thread)
  | .selfSynchronization thread => .selfSynchronization (p thread)
  | .fatal cause => .fatal (cause.rename p)

/-- Where two lists are the same after each has been mapped, both have an element at a position
or neither has. -/
theorem getElem?_cases_of_map_eq {α β γ : Type} {f : α → γ} {g : β → γ} {l : List α} {l' : List β}
    (h : l.map f = l'.map g) (n : Nat) :
    (l[n]? = none ∧ l'[n]? = none) ∨
      ∃ a b, l[n]? = some a ∧ l'[n]? = some b ∧ f a = g b := by
  have hnth : l[n]?.map f = l'[n]?.map g := by rw [← List.getElem?_map, ← List.getElem?_map, h]
  cases ha : l[n]? <;> cases hb : l'[n]? <;> simp_all

theorem isSome_eq_of_rel {α β : Type} {R : α → β → Prop} {o : Option α} {o' : Option β}
    (h : Option.Rel R o o') : o'.isSome = o.isSome := by
  cases h <;> rfl

/-- A result where the threads that an error is about have other names. -/
def renameResult {α : Type} (p : Nat → Nat) (result : Except (Failure Error) α) :
    Except (Failure Error) α :=
  result.mapError (Failure.map (Error.rename p))

theorem map_renameResult {α β : Type} (p : Nat → Nat) (result : Except (Failure Error) α)
    (f : α → β) : (renameResult p result).map f = renameResult p (result.map f) := by
  cases result <;> rfl

/-- A handle stands for another one under other names: both are foreign or neither is, and the
identity is the other name. -/
def Handle.StandsFor (p : Nat → Nat) (tag tag' : Nat) (h h' : Handle) : Prop :=
  h'.seenBy tag' = ((h.seenBy tag).1, p h.thread)

/-- An operation about the threads that the handles of another one stand for. -/
def Op.StandsFor (p : Nat → Nat) (tag tag' : Nat) (op op' : Op Handle) : Prop :=
  op'.map (·.seenBy tag') = op.map fun h => ((h.seenBy tag).1, p h.thread)

namespace Registry

variable {K K' : Nat} {p : Renaming K K'} {r : Registry K} {r' : Registry K'} {a b a' b' : Handle}
  {s : ThreadState K} {s' : ThreadState K'} {t : Nat}

/-- The same threads under other names. -/
def Renamed (p : Renaming K K') (r : Registry K) (r' : Registry K') : Prop :=
  ∀ t, Option.Rel (ThreadState.Renamed p) (r.state? t) (r'.state? (p t))

theorem Renamed.put (hr : r.Renamed p r') (hs : s.Renamed p s') (h0 : s.id ≠ noThread) :
    (r.put s).Renamed p (r'.put s') := by
  intro t
  have ht := hr t
  rw [state?_put r h0, state?_put r' (hs.id_eq ▸ fun h => h0 (p.apply_eq_noThread.mp h))]
  simp only [hs.id_eq, p.apply_inj]
  generalize r.state? t = o at ht
  generalize r'.state? (p t) = o' at ht
  split
  · cases ht with
    | none => exact .none
    | some => exact .some hs
  · exact ht

section

variable (hr : r.Renamed p r') (ha : a.StandsFor p r.tag r'.tag a')
include hr ha

theorem Renamed.lookup_cases :
    (∃ e, r.lookup a = .error e ∧ r'.lookup a' = .error (e.rename p)) ∨
      ∃ s s', r.lookup a = .ok s ∧ r'.lookup a' = .ok s' ∧ s.Renamed p s' := by
  obtain ⟨howner, hthread⟩ := Prod.mk.inj ha
  have hiff : a'.owner = r'.tag ↔ a.owner = r.tag := by
    rw [← beq_iff_eq (a := a'.owner), howner, Handle.seenBy, beq_iff_eq]
  have ht := hr a.thread
  simp only [lookup, hthread, hiff]
  by_cases ho : a.owner = r.tag
  · simp only [if_pos ho]
    generalize r.state? a.thread = o at ht
    generalize r'.state? (p a.thread) = o' at ht
    cases ht with
    | none => exact .inl ⟨_, rfl, rfl⟩
    | some hs => exact .inr ⟨_, _, rfl, rfl, hs⟩
  · simp only [if_neg ho]
    exact .inl ⟨_, rfl, rfl⟩

theorem Renamed.lookupAlive_cases :
    (∃ e, r.lookupAlive a = .error e ∧ r'.lookupAlive a' = .error (e.rename p)) ∨
      ∃ s s', r.lookup a = .ok s ∧ r.lookupAlive a = .ok s ∧ r'.lookupAlive a' = .ok s' ∧
        s.Renamed p s' := by
  rcases hr.lookup_cases ha with ⟨e, hl, hl'⟩ | ⟨s, s', hl, hl', hs⟩
  · exact .inl ⟨e, by simp [lookupAlive, hl, bind, Except.bind],
      by simp [lookupAlive, hl', bind, Except.bind]⟩
  · simp only [lookupAlive, hl, hl', bind, Except.bind, ThreadState.ensureAlive, hs.exited_eq]
    cases s.exited with
    | true => exact .inl ⟨.threadExited s.id, rfl, by simp [Error.rename, hs.id_eq]⟩
    | false => exact .inr ⟨s, s', rfl, rfl, rfl, hs⟩

variable (hb : b.StandsFor p r.tag r'.tag b')
include hb

theorem Renamed.lookupPair_cases :
    (∃ e, r.lookupPair a b = .error e ∧ r'.lookupPair a' b' = .error (e.rename p)) ∨
      ∃ s s' u u', r.lookup a = .ok s ∧ r.lookup b = .ok u ∧ r.lookupPair a b = .ok (s, u) ∧
        r'.lookupPair a' b' = .ok (s', u') ∧ s.Renamed p s' ∧ u.Renamed p u' := by
  have hab : a'.thread = b'.thread ↔ a.thread = b.thread := by
    rw [(Prod.mk.inj ha).2, (Prod.mk.inj hb).2, p.apply_inj]
  simp only [lookupPair, bind, Except.bind, hab]
  rcases hr.lookup_cases ha with ⟨e, hl, hl'⟩ | ⟨s, s', hl, hl', hs⟩
  · exact .inl ⟨e, by rw [hl], by rw [hl']⟩
  rcases hr.lookup_cases hb with ⟨e, hl₁, hl₁'⟩ | ⟨u, u', hl₁, hl₁', hu⟩
  · exact .inl ⟨e, by rw [hl, hl₁], by rw [hl', hl₁']⟩
  simp only [hl, hl', hl₁, hl₁', ThreadState.ensureAlive, hs.exited_eq]
  by_cases hsame : a.thread = b.thread
  · refine .inl ⟨.selfSynchronization a.thread, by simp [hsame, throw, throwThe,
      MonadExceptOf.throw], ?_⟩
    simp [hsame, throw, throwThe, MonadExceptOf.throw, Error.rename, (Prod.mk.inj ha).2]
  · cases s.exited with
    | true =>
      exact .inl ⟨.threadExited s.id, by simp [hsame], by simp [hsame, Error.rename, hs.id_eq]⟩
    | false =>
      exact .inr ⟨s, s', u, u', rfl, rfl, by simp [hsame, pure, Except.pure],
        by simp [hsame, pure, Except.pure], hs, hu⟩

theorem Renamed.lookupAlivePair_cases :
    (∃ e, r.lookupAlivePair a b = .error e ∧ r'.lookupAlivePair a' b' = .error (e.rename p)) ∨
      ∃ s s' u u', r.lookup a = .ok s ∧ r.lookup b = .ok u ∧ r.lookupAlivePair a b = .ok (s, u) ∧
        r'.lookupAlivePair a' b' = .ok (s', u') ∧ s.Renamed p s' ∧ u.Renamed p u' := by
  simp only [lookupAlivePair, bind, Except.bind]
  rcases hr.lookupPair_cases ha hb with ⟨e, hl, hl'⟩ | ⟨s, s', u, u', hls, hlu, hl, hl', hs, hu⟩
  · exact .inl ⟨e, by rw [hl], by rw [hl']⟩
  · simp only [hl, hl', ThreadState.ensureAlive, hu.exited_eq]
    cases u.exited with
    | true => exact .inl ⟨.threadExited u.id, rfl, by simp [Error.rename, hu.id_eq]⟩
    | false => exact .inr ⟨s, s', u, u', hls, hlu, rfl, rfl, hs, hu⟩

end

/-- A transfer between two threads, and the one between the threads under their other names. -/
theorem Renamed.transfer (hr : r.Renamed p r') (hK : K ≤ maxThread) (hK' : K' ≤ maxThread)
    {giver receiver : ThreadState K} {giver' receiver' : ThreadState K'}
    (hg : giver.Renamed p giver') (hv : receiver.Renamed p receiver') (hs : giver.Sound t)
    (h0 : receiver.id ≠ noThread) (note note' : Epoch → Note) :
    (r.transfer giver receiver note).state.Renamed p
        (r'.transfer giver' receiver' note').state ∧
      (r'.transfer giver' receiver' note').result =
        renameResult p (r.transfer giver receiver note).result := by
  have hlearnt := hr.put (hv.observe hg.clock) h0
  simp only [Registry.transfer]
  rcases hg.tick_cases hs hK hK' with ⟨htick, htick', hnext⟩ | ⟨c, htick, htick'⟩
  · rw [htick, htick']
    have hid : giver.next.id ≠ noThread := hs.id_eq ▸ hs.fits.1
    exact ⟨hlearnt.put hnext hid, rfl⟩
  · rw [htick, htick']
    exact ⟨hlearnt, rfl⟩

end Registry

/-! ### Detectors -/

namespace Detector

variable {rule : Rule} {K K' : Nat} {p : Renaming K K'} {d : Detector rule K}
  {d' : Detector rule K'} {op op' : Op Handle} {t t' : Handle} {lock x : Address}

/-- Two detectors keep the same under other names of the threads, apart from their records. -/
structure Renamed (p : Renaming K K') (d : Detector rule K) (d' : Detector rule K') : Prop where
  threads : d.registry.Renamed p d'.registry
  locks : ∀ lock, Option.Rel (VectorClock.Renamed p) (d.lockClock? lock) (d'.lockClock? lock)
  monitors : ∀ x, (d'.entryAt? x).isSome = (d.entryAt? x).isSome
  histories : ∀ x, rule.Renamed p (d.entryOf x).history (d'.entryOf x).history

/-- What two detectors have to have in order for their runs to stay the same. -/
structure Twins (p : Renaming K K') (d : Detector rule K) (d' : Detector rule K') : Prop where
  renamed : d.Renamed p d'
  sound : d.Sound
  sound' : d'.Sound
  inRange : ∀ x, rule.InRange (d.entryOf x).history

/-- What two detectors keep of a location, if the same ones are monitored. -/
theorem rel_entryAt? {R : Entry rule K → Entry rule K' → Prop} {x : Address}
    (hmonitors : (d'.entryAt? x).isSome = (d.entryAt? x).isSome)
    (hentry : R (d.entryOf x) (d'.entryOf x)) : Option.Rel R (d.entryAt? x) (d'.entryAt? x) := by
  cases ho : d.entryAt? x with
  | none =>
    obtain ho' : d'.entryAt? x = none := by simpa [ho] using hmonitors
    rw [ho']
    exact .none
  | some entry =>
    rw [ho] at hmonitors
    obtain ⟨entry', ho'⟩ := Option.isSome_iff_exists.mp hmonitors
    rw [entryOf_of_entryAt? ho, entryOf_of_entryAt? ho'] at hentry
    rw [ho']
    exact .some hentry

theorem Renamed.isSome_status?_eq (h : d.Renamed p d')
    (ht : t.StandsFor p d.registry.tag d'.registry.tag t') :
    (d'.roster.status? t').isSome = (d.roster.status? t).isSome := by
  rcases h.threads.lookup_cases ht with ⟨e, hl, hl'⟩ | ⟨s, s', hl, hl', -⟩
  · rw [isSome_status?_of_lookup_error hl, isSome_status?_of_lookup_error hl']
  · rw [isSome_status?_of_lookup hl, isSome_status?_of_lookup hl']

theorem Renamed.isSome_lockClock?_eq (h : d.Renamed p d') (lock : Address) :
    (d'.lockClock? lock).isSome = (d.lockClock? lock).isSome :=
  isSome_eq_of_rel (h.locks lock)

theorem Renamed.clock (h : d.Renamed p d') (lock : Address) :
    ((d.locks.clock? lock).getD .zero).Renamed p ((d'.locks.clock? lock).getD .zero) := by
  have hlock : Option.Rel (VectorClock.Renamed p) (d.locks.clock? lock) (d'.locks.clock? lock) :=
    h.locks lock
  generalize d.locks.clock? lock = o at hlock
  generalize d'.locks.clock? lock = o' at hlock
  cases hlock with
  | none => exact renamed_zero p
  | some hc => exact hc

theorem Renamed.touch (h : d.Renamed p d') (lock l : Address) :
    Option.Rel (VectorClock.Renamed p) ((d.locks.touch lock).clock? l)
      ((d'.locks.touch lock).clock? l) := by
  rw [LockStore.clock?_touch, LockStore.clock?_touch]
  split
  · exact .some (h.clock lock)
  · exact h.locks l

theorem Renamed.publish (h : d.Renamed p d') (lock : Address) {c : VectorClock K}
    {c' : VectorClock K'} (hc : c.Renamed p c') (l : Address) :
    Option.Rel (VectorClock.Renamed p) ((d.locks.publish lock c).clock? l)
      ((d'.locks.publish lock c').clock? l) := by
  rw [LockStore.clock?_publish, LockStore.clock?_publish]
  split
  · exact .some hc
  · exact h.locks l

/-- What is said of an operation and the renamed one in two detectors. -/
structure StepRenamed (p : Renaming K K') (d : Detector rule K) (d' : Detector rule K')
    (op op' : Op Handle) : Prop where
  threads : (d.step op).state.registry.Renamed p (d'.step op').state.registry
  locks : ∀ lock, Option.Rel (VectorClock.Renamed p) ((d.step op).state.lockClock? lock)
    ((d'.step op').state.lockClock? lock)
  result_eq : (d'.step op').result = renameResult p (d.step op).result

/-- An operation that only works on the threads. -/
theorem Renamed.of_registry (h : d.Renamed p d') (reply : Reply (Registry K) Unit)
    (reply' : Reply (Registry K') Unit) (hthreads : reply.state.Renamed p reply'.state)
    (hresult : reply'.result = renameResult p reply.result)
    (hstep : d.step op =
      (reply.mapState fun registry => { d with registry }).mapResult fun () => .unit)
    (hstep' : d'.step op' =
      (reply'.mapState fun registry => { d' with registry }).mapResult fun () => .unit) :
    StepRenamed p d d' op op' where
  threads := by rwa [hstep, hstep']
  locks := by
    rw [hstep, hstep']
    exact h.locks
  result_eq := by
    rw [hstep, hstep', Reply.result_mapResult, Reply.result_mapResult, Reply.result_mapState,
      Reply.result_mapState, hresult, map_renameResult]

/-- An operation that is refused at once. -/
theorem Renamed.of_fail (h : d.Renamed p d') {e : Error} (hstep : d.step op = .fail d e [])
    (hstep' : d'.step op' = .fail d' (e.rename p) []) : StepRenamed p d d' op op' where
  threads := by rw [hstep, hstep']; exact h.threads
  locks := by rw [hstep, hstep']; exact h.locks
  result_eq := by rw [hstep, hstep']; rfl

/-- An operation that works on a lock and a thread. -/
theorem of_locks (reply : Reply (LockStore K × ThreadState K) Unit)
    (reply' : Reply (LockStore K' × ThreadState K') Unit)
    (hthreads : (d.registry.put reply.state.2).Renamed p (d'.registry.put reply'.state.2))
    (hlocks : ∀ l, Option.Rel (VectorClock.Renamed p) (reply.state.1.clock? l)
      (reply'.state.1.clock? l))
    (hresult : reply'.result = renameResult p reply.result)
    (hstep : d.step op = (reply.mapState fun (locks, s) =>
      { d with locks, registry := d.registry.put s }).mapResult fun () => .unit)
    (hstep' : d'.step op' = (reply'.mapState fun (locks, s) =>
      { d' with locks, registry := d'.registry.put s }).mapResult fun () => .unit) :
    StepRenamed p d d' op op' where
  threads := by rwa [hstep, hstep']
  locks := by rw [hstep, hstep']; exact hlocks
  result_eq := by
    rw [hstep, hstep', Reply.result_mapResult, Reply.result_mapResult, Reply.result_mapState,
      Reply.result_mapState, hresult, map_renameResult]

section

variable (h : d.Twins p d')
include h

theorem Twins.capacity : K ≤ maxThread := h.sound.capacity

theorem Twins.capacity' : K' ≤ maxThread := h.sound'.capacity

theorem Twins.sound_of_lookup {s : ThreadState K} (hl : d.registry.lookup t = .ok s) :
    s.Sound t.thread :=
  h.sound.threads _ s (Registry.state?_of_lookup hl)

theorem Twins.id_ne_noThread {s : ThreadState K} (hl : d.registry.lookup t = .ok s) :
    s.id ≠ noThread :=
  h.sound.id_ne_noThread hl

theorem Twins.fork {q q' c c' : Handle} (hq : q.StandsFor p d.registry.tag d'.registry.tag q')
    (hc : c.StandsFor p d.registry.tag d'.registry.tag c') :
    StepRenamed p d d' (.fork q c) (.fork q' c') := by
  have hr := h.renamed.threads
  rcases hr.lookupAlivePair_cases hq hc with
    ⟨e, hl, hl'⟩ | ⟨s, s', u, u', hls, hlu, hl, hl', hs, hu⟩
  · exact h.renamed.of_fail (by simp [step, Detector.fork, Registry.fork, hl]; rfl)
      (by simp [step, Detector.fork, Registry.fork, hl']; rfl)
  · obtain ⟨hthreads, hresult⟩ := hr.transfer h.capacity h.capacity' hs hu (h.sound_of_lookup hls)
      (h.id_ne_noThread hlu) (.forked s.id u.id) (.forked s'.id u'.id)
    refine h.renamed.of_registry (d.registry.fork q c) (d'.registry.fork q' c') ?_ ?_ rfl rfl
    · simpa only [Registry.fork, hl, hl'] using hthreads
    · simpa only [Registry.fork, hl, hl'] using hresult

theorem Twins.join {q q' c c' : Handle} (hq : q.StandsFor p d.registry.tag d'.registry.tag q')
    (hc : c.StandsFor p d.registry.tag d'.registry.tag c') :
    StepRenamed p d d' (.join q c) (.join q' c') := by
  have hr := h.renamed.threads
  rcases hr.lookupPair_cases hq hc with
    ⟨e, hl, hl'⟩ | ⟨s, s', u, u', hls, hlu, hl, hl', hs, hu⟩
  · exact h.renamed.of_fail (by simp [step, Detector.join, Registry.join, hl]; rfl)
      (by simp [step, Detector.join, Registry.join, hl']; rfl)
  · obtain ⟨hthreads, hresult⟩ := hr.transfer h.capacity h.capacity' hu hs (h.sound_of_lookup hlu)
      (h.id_ne_noThread hls) (.joined s.id u.id) (.joined s'.id u'.id)
    refine h.renamed.of_registry (d.registry.join q c) (d'.registry.join q' c') ?_ ?_ rfl rfl
    · simpa only [Registry.join, hl, hl'] using hthreads
    · simpa only [Registry.join, hl, hl'] using hresult

variable (ht : t.StandsFor p d.registry.tag d'.registry.tag t')
include ht

theorem Twins.exit : StepRenamed p d d' (.exit t) (.exit t') := by
  have hr := h.renamed.threads
  rcases hr.lookupAlive_cases ht with ⟨e, hl, hl'⟩ | ⟨s, s', hls, hl, hl', hs⟩
  · exact h.renamed.of_fail (by simp [step, Detector.exit, Registry.exit, hl]; rfl)
      (by simp [step, Detector.exit, Registry.exit, hl']; rfl)
  · have hid : s.id ≠ noThread := h.id_ne_noThread hls
    refine h.renamed.of_registry (d.registry.exit t) (d'.registry.exit t') ?_ ?_ rfl rfl
    · simpa only [Registry.exit, hl, hl', Reply.state_done] using hr.put (s := s.exit) hs.exit hid
    · simp only [Registry.exit, hl, hl']
      rfl

theorem Twins.acquire (lock : Address) :
    StepRenamed p d d' (.acquire lock t) (.acquire lock t') := by
  have hr := h.renamed.threads
  rcases hr.lookup_cases ht with ⟨e, hl, hl'⟩ | ⟨s, s', hl, hl', hs⟩
  · exact h.renamed.of_fail (by simp [step, Detector.acquire, hl]; rfl)
      (by simp [step, Detector.acquire, hl']; rfl)
  · have hid := h.id_ne_noThread hl
    refine of_locks (d.locks.acquire lock s) (d'.locks.acquire lock s') ?_ (fun l => ?_) ?_
      (by simp [step, Detector.acquire, hl]) (by simp [step, Detector.acquire, hl'])
    · simp only [LockStore.acquire, ThreadState.ensureAlive, hs.exited_eq]
      cases s.exited with
      | true => exact hr.put hs hid
      | false => exact hr.put (hs.observe (h.renamed.clock lock)) hid
    · have htouched := h.renamed.touch lock l
      simp only [LockStore.acquire, ThreadState.ensureAlive, hs.exited_eq]
      cases s.exited <;> exact htouched
    · simp only [LockStore.acquire, ThreadState.ensureAlive, hs.exited_eq]
      cases s.exited with
      | true => simp [renameResult, Except.mapError, Failure.map, Error.rename, hs.id_eq]
      | false => rfl

theorem Twins.release (lock : Address) :
    StepRenamed p d d' (.release lock t) (.release lock t') := by
  have hr := h.renamed.threads
  rcases hr.lookup_cases ht with ⟨e, hl, hl'⟩ | ⟨s, s', hl, hl', hs⟩
  · exact h.renamed.of_fail (by simp [step, Detector.release, hl]; rfl)
      (by simp [step, Detector.release, hl']; rfl)
  · have hid := h.id_ne_noThread hl
    have htouched := h.renamed.touch lock
    have hpublished := h.renamed.publish lock hs.clock
    have hstep : d.step (.release lock t) = ((d.locks.release lock s).mapState fun (locks, s) =>
        { d with locks, registry := d.registry.put s }).mapResult fun () => .unit := by
      simp [step, Detector.release, hl]
    have hstep' : d'.step (.release lock t') =
        ((d'.locks.release lock s').mapState fun (locks, s) =>
          { d' with locks, registry := d'.registry.put s }).mapResult fun () => .unit := by
      simp [step, Detector.release, hl']
    cases hx : s.exited with
    | true =>
      have halive : s.ensureAlive = .error (.threadExited s.id) := by
        simp [ThreadState.ensureAlive, hx]
      have halive' : s'.ensureAlive = .error (.threadExited (p s.id)) := by
        simp [ThreadState.ensureAlive, hs.exited_eq, hx, hs.id_eq]
      refine of_locks _ _ ?_ ?_ ?_ hstep hstep' <;> simp only [LockStore.release, halive, halive']
      · exact hr.put hs hid
      · exact htouched
      · rfl
    | false =>
      have halive : s.ensureAlive = .ok () := by simp [ThreadState.ensureAlive, hx]
      have halive' : s'.ensureAlive = .ok () := by
        simp [ThreadState.ensureAlive, hs.exited_eq, hx]
      rcases hs.tick_cases (h.sound_of_lookup hl) h.capacity h.capacity' with
        ⟨htick, htick', hnext⟩ | ⟨c, htick, htick'⟩
      · have hid' : s.next.id ≠ noThread := hid
        refine of_locks _ _ ?_ ?_ ?_ hstep hstep' <;>
          simp only [LockStore.release, halive, halive', htick, htick']
        · exact hr.put hnext hid'
        · exact hpublished
        · rfl
      · refine of_locks _ _ ?_ ?_ ?_ hstep hstep' <;>
          simp only [LockStore.release, halive, halive', htick, htick']
        · exact hr.put hs hid
        · exact hpublished
        · rfl

/-- The check of an access comes to the same, also if the access is refused. -/
theorem Twins.examine_cases (a : Access) :
    (∃ f f', d.examine t a = .ok f ∧ d'.examine t' a = .ok f' ∧ rule.FindingRenamed p f f' ∧
        f.thread.id ≠ noThread) ∨
      ∃ error, d.examine t a = .error error ∧
        d'.examine t' a = .error (error.map (Error.rename p)) := by
  have hr := h.renamed.threads
  rcases hr.lookup_cases ht with ⟨e, hl, hl'⟩ | ⟨s, s', hl, hl', hs⟩
  · exact .inr ⟨.error e, by simp [examine, hl], by simp [examine, hl', Failure.map]⟩
  · simp only [examine, hl, hl', ThreadState.ensureAlive, hs.exited_eq]
    cases s.exited with
    | true => exact .inr ⟨.error (.threadExited s.id), rfl, by simp [Failure.map, Error.rename,
        hs.id_eq]⟩
    | false =>
      have hsound := h.sound_of_lookup hl
      have hsound' : s'.Sound (p t.thread) := by
        have hs' := h.sound'.threads _ s' (Registry.state?_of_lookup hl')
        rwa [(Prod.mk.inj ht).2] at hs'
      rcases Rule.check_renamed (h.renamed.histories a.address) hs (h.inRange a.address) hsound
        hsound' h.capacity h.capacity' a with ⟨f, f', hf, hf', hfinding⟩ | ⟨c, hf, hf'⟩
      · refine .inl ⟨f, f', by rw [hf]; rfl, by rw [hf']; rfl, hfinding, ?_⟩
        rw [Rule.id_of_check hf]
        exact h.id_ne_noThread hl
      · exact .inr ⟨_, by rw [hf]; rfl, by rw [hf']; rfl⟩

theorem Twins.access (a : Access) : StepRenamed p d d' (.access t a) (.access t' a) := by
  have hlocks (l : Address) : Option.Rel (VectorClock.Renamed p)
      ((d.step (.access t a)).state.lockClock? l)
      ((d'.step (.access t' a)).state.lockClock? l) := by
    rw [lockClock?_step_of_ne _ (by simp [Op.lock?]), lockClock?_step_of_ne _ (by simp [Op.lock?])]
    exact h.renamed.locks l
  rcases h.examine_cases ht a with ⟨f, f', hf, hf', hfinding, hid⟩ | ⟨error, he, he'⟩
  · obtain ⟨hresult, hregistry, -⟩ := step_of_examine hf
    obtain ⟨hresult', hregistry', -⟩ := step_of_examine hf'
    refine ⟨?_, hlocks, by rw [hresult, hresult']; rfl⟩
    rw [hregistry, hregistry']
    exact h.renamed.threads.put hfinding.thread hid
  · obtain ⟨hresult, hregistry, -⟩ := step_of_examine_error he
    obtain ⟨hresult', hregistry', -⟩ := step_of_examine_error he'
    refine ⟨?_, hlocks, by rw [hresult, hresult']; rfl⟩
    rw [hregistry, hregistry']
    exact h.renamed.threads

end

section

variable (h : d.Twins p d')
include h

theorem Twins.forgetLock (lock : Address) :
    StepRenamed p d d' (.forgetLock lock) (.forgetLock lock) where
  threads := h.renamed.threads
  locks l := by
    have hforget : (d.step (.forgetLock lock)).state.lockClock? l = _ :=
      LockStore.clock?_forget d.locks lock l
    have hforget' : (d'.step (.forgetLock lock)).state.lockClock? l = _ :=
      LockStore.clock?_forget d'.locks lock l
    rw [hforget, hforget']
    split
    · exact .none
    · exact h.renamed.locks l
  result_eq := by
    have hkept : (d'.locks.clock? lock).isSome = (d.locks.clock? lock).isSome :=
      h.renamed.isSome_lockClock?_eq lock
    simp only [step, Detector.forgetLock, Reply.result_mapResult, Reply.result_mapState,
      LockStore.result_forget, hkept]
    rfl

theorem Twins.init (x : Address) : StepRenamed p d d' (.init x) (.init x) where
  threads := h.renamed.threads
  locks := h.renamed.locks
  result_eq := by
    have hkept : (d'.shadow.get? x).isSome = (d.shadow.get? x).isSome := h.renamed.monitors x
    simp only [step, Detector.init, Reply.result_mapResult, Reply.result_mapState,
      ShadowMemory.result_init, hkept]
    rfl

theorem Twins.forget (x : Address) : StepRenamed p d d' (.forget x) (.forget x) where
  threads := h.renamed.threads
  locks := h.renamed.locks
  result_eq := by
    have hkept : (d'.shadow.get? x).isSome = (d.shadow.get? x).isSome := h.renamed.monitors x
    simp only [step, Detector.forget, Reply.result_mapResult, Reply.result_mapState,
      ShadowMemory.result_forget, hkept]
    rfl

variable (hop : op.StandsFor p d.registry.tag d'.registry.tag op')
include hop

theorem Twins.stepRenamed (hstart : op ≠ .start) : StepRenamed p d d' op op' := by
  cases op <;> cases op' <;> simp only [Op.StandsFor, Op.map, reduceCtorEq, Op.fork.injEq,
    Op.join.injEq, Op.exit.injEq, Op.acquire.injEq, Op.release.injEq, Op.forgetLock.injEq,
    Op.access.injEq, Op.init.injEq, Op.forget.injEq] at hop
  case start.start => exact absurd rfl hstart
  case fork.fork => exact h.fork hop.1 hop.2
  case join.join => exact h.join hop.1 hop.2
  case exit.exit => exact h.exit hop
  case acquire.acquire =>
    obtain ⟨rfl, ht⟩ := hop
    exact h.acquire ht _
  case release.release =>
    obtain ⟨rfl, ht⟩ := hop
    exact h.release ht _
  case forgetLock.forgetLock =>
    obtain rfl := hop
    exact h.forgetLock _
  case access.access =>
    obtain ⟨ht, rfl⟩ := hop
    exact h.access ht _
  case init.init =>
    obtain rfl := hop
    exact h.init _
  case forget.forget =>
    obtain rfl := hop
    exact h.forget _

theorem Twins.isSome_entryAt?_step_eq (x : Address) :
    ((d'.step op').state.entryAt? x).isSome = ((d.step op).state.entryAt? x).isSome := by
  rw [isSome_entryAt?_step, isSome_entryAt?_step, h.renamed.monitors]
  cases op <;> cases op' <;> simp only [Op.StandsFor, Op.map, reduceCtorEq, Op.access.injEq,
    Op.init.injEq, Op.forget.injEq] at hop
  case access.access t a t' a' =>
    obtain ⟨ht, rfl⟩ := hop
    simp only [Op.keepsLocation, h.renamed.isSome_status?_eq ht]
  case init.init =>
    obtain rfl := hop
    rfl
  case forget.forget =>
    obtain rfl := hop
    rfl
  all_goals rfl

theorem Twins.history_step (x : Address) :
    rule.Renamed p ((d.step op).state.entryOf x).history
      ((d'.step op').state.entryOf x).history := by
  have hhistory := h.renamed.histories x
  obtain ⟨t, a, rfl⟩ | hne := op.access_or_ne
  · obtain ⟨t', rfl, ht⟩ := Op.map_eq_access.mp hop
    rcases h.examine_cases ht a with ⟨f, f', hf, hf', hfinding, -⟩ | ⟨error, he, he'⟩
    · obtain ⟨-, -, hentry⟩ := step_of_examine hf
      obtain ⟨-, -, hentry'⟩ := step_of_examine hf'
      rw [hentry, hentry']
      split
      · exact hfinding.history
      · exact hhistory
    · obtain ⟨-, -, hentry⟩ := step_of_examine_error he
      obtain ⟨-, -, hentry'⟩ := step_of_examine_error he'
      rw [hentry, hentry']
      exact hhistory
  · have hne' (t' : Handle) (a : Access) : op' ≠ .access t' a := by
      rintro rfl
      obtain ⟨t, rfl, -⟩ := Op.map_eq_access.mp hop.symm
      exact hne t a rfl
    have hforget : op' = .forget x ↔ op = .forget x := by
      rw [← Op.map_eq_forget, hop, Op.map_eq_forget]
    rw [entryOf_step _ hne, entryOf_step _ hne']
    simp only [hforget]
    split
    · exact rule.renamed_neutral p
    · exact hhistory

/-- Told of an operation and of the renamed one, two detectors that keep the same hand back the
same and keep the same afterwards. -/
theorem Twins.step (hstart : op ≠ .start) :
    (d.step op).state.Renamed p (d'.step op').state ∧
      (d'.step op').result = renameResult p (d.step op).result := by
  have hstep := h.stepRenamed hop hstart
  exact ⟨⟨hstep.threads, hstep.locks, h.isSome_entryAt?_step_eq hop, h.history_step hop⟩,
    hstep.result_eq⟩

/-- The races reported of both operations are those of one finding and of the renamed one. -/
theorem Twins.reported_cases (x : Address) :
    (d.reported x op = [] ∧ d'.reported x op' = []) ∨
      ∃ f f', rule.FindingRenamed p f f' ∧ d.reported x op = Entry.eventsOf f x ∧
        d'.reported x op' = Entry.eventsOf f' x := by
  obtain ⟨t, a, rfl⟩ | hne := op.access_or_ne
  · obtain ⟨t', rfl, ht⟩ := Op.map_eq_access.mp hop
    rcases h.examine_cases ht a with ⟨f, f', hf, hf', hfinding, -⟩ | ⟨error, he, he'⟩
    · simp only [reported, hf, hf']
      by_cases hx : a.address = x
      · exact .inr ⟨f, f', hfinding, by rw [if_pos hx], by rw [if_pos hx]⟩
      · exact .inl ⟨by rw [if_neg hx], by rw [if_neg hx]⟩
    · exact .inl ⟨by rw [reported, he], by rw [reported, he']⟩
  · refine .inl ?_
    cases op with
    | access t a => exact absurd rfl (hne t a)
    | start | fork | join | exit | acquire | release | forgetLock | init | forget =>
      cases op' <;> simp_all [Op.StandsFor, Op.map, reported]

end

/-- In runs of detectors it is enough that they keep the same. -/
theorem Renamed.twins {config config' : Config} {tag tag' : Nat}
    (h : create rule K config tag = .ok d) (h' : create rule K' config' tag' = .ok d')
    {ops ops' : List (Op Handle)} {n n' : Nat}
    (hr : (d.after ops n).Renamed p (d'.after ops' n')) :
    Twins p (d.after ops n) (d'.after ops' n') :=
  ⟨hr, sound_after h ops n, sound_after h' ops' n', inRange_entryOf h ops n⟩

theorem tag_after {config : Config} {tag : Nat} (h : create rule K config tag = .ok d)
    (ops : List (Op Handle)) (n : Nat) : (d.after ops n).registry.tag = tag := by
  induction n with
  | zero =>
    obtain ⟨-, rfl⟩ := create_eq_ok h
    rfl
  | succ n ih =>
    cases hop : ops[n]? with
    | none => rwa [after_succ_of_none d hop]
    | some op => rw [after_succ d hop, tag_step, ih]

end Detector

end RaceWatch
