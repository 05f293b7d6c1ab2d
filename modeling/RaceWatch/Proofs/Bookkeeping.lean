import RaceWatch.Proofs.Causality
import RaceWatch.Proofs.Check
import RaceWatch.Proofs.Location

/-!
A detector keeps its books in order: every thread is where its identity puts it, its
cached epoch is its own coordinate, and each operation moves the knowledge of threads and
locks as a chronicle says. So the clocks in a detector are those that the chronicle of
its run determines.
-/

namespace RaceWatch

open VectorClock

/-- Whether an error is a break of the bookkeeping and not a misuse. -/
def Error.isFatal : Error → Bool
  | .fatal _ => true
  | _ => false

/-! ### Knowledge in a registry and a lock store -/

namespace Registry

variable {K : Nat} {r : Registry K} {t : Nat} {s s₀ : ThreadState K}

theorem ne_noThread_of_state? (h : r.state? t = some s) : t ≠ noThread := by
  rintro rfl
  simp [state?] at h

/-- Writing back the state of a thread that there is. -/
theorem state?_put_of_some (h : r.state? t = some s₀) (hs : s.id = t) (u : Nat) :
    (r.put s).state? u = if u = t then some s else r.state? u := by
  subst hs
  rw [state?_put r (ne_noThread_of_state? h)]
  by_cases hu : u = s.id
  · subst hu
    simp [h]
  · rw [if_neg (Ne.symm hu), if_neg hu]

/-- Writing back what is there changes nothing. -/
theorem put_self (h : r.state? t = some s) (hs : s.id = t) : r.put s = r := by
  subst hs
  simp only [state?, ne_noThread_of_state? h, if_false] at h
  obtain ⟨hlt, hget⟩ := List.getElem?_eq_some_iff.mp h
  have hset := List.set_getElem_self hlt
  rw [hget] at hset
  rw [put, hset]

/-- The registry with one more thread. -/
def add (r : Registry K) (s : ThreadState K) : Registry K :=
  { r with threads := r.threads ++ [s] }

theorem state?_add (r : Registry K) (s : ThreadState K) (t : Nat) :
    (r.add s).state? t = if t = ownerOf r.size then some s else r.state? t := by
  by_cases h0 : t = noThread
  · subst h0
    rw [if_neg (by simp [noThread, ownerOf])]
    rfl
  · simp only [noThread] at h0
    simp only [state?, noThread, h0, if_false, add, coordinateOf, ownerOf, size]
    rcases Nat.lt_trichotomy (t - 1) r.threads.length with hlt | heq | hgt
    · rw [List.getElem?_append_left hlt, if_neg (by omega)]
    · rw [heq, List.getElem?_append_right (Nat.le_refl _), if_pos (by omega)]
      simp
    · rw [List.getElem?_eq_none (by simp; omega), if_neg (by omega),
        List.getElem?_eq_none (by omega)]

theorem state?_ownerOf_size (r : Registry K) : r.state? (ownerOf r.size) = none := by
  simp [state?, ownerOf, noThread, coordinateOf, size]

theorem state?_of_lookup {h : Handle} (hs : r.lookup h = .ok s) : r.state? h.thread = some s :=
  (lookup_eq_ok.mp hs).2

/-- Two handles are either refused for a reason that the caller can avoid, or they refer
to two different threads of the registry, the first of which is alive. -/
theorem lookupPair_cases (r : Registry K) (a b : Handle) :
    (∃ e, e.isFatal = false ∧ r.lookupPair a b = .error e) ∨
      ∃ s s', r.lookup a = .ok s ∧ r.lookup b = .ok s' ∧ a.thread ≠ b.thread ∧
        r.lookupPair a b = .ok (s, s') := by
  simp only [lookupPair, bind, Except.bind]
  cases ha : r.lookup a with
  | error e => exact .inl ⟨e, lookup_eq_error ha ▸ rfl, rfl⟩
  | ok s =>
    cases hb : r.lookup b with
    | error e => exact .inl ⟨e, lookup_eq_error hb ▸ rfl, rfl⟩
    | ok s' =>
      by_cases hab : a.thread = b.thread
      · exact .inl ⟨.selfSynchronization a.thread, rfl, by simp [hab, throw, throwThe,
          MonadExceptOf.throw]⟩
      · cases hx : s.exited with
        | true => exact .inl ⟨.threadExited s.id, rfl, by simp [hab, ThreadState.ensureAlive, hx]⟩
        | false =>
          exact .inr ⟨s, s', rfl, rfl, hab, by simp [hab, ThreadState.ensureAlive, hx, pure,
            Except.pure]⟩

theorem lookupAlivePair_cases (r : Registry K) (a b : Handle) :
    (∃ e, e.isFatal = false ∧ r.lookupAlivePair a b = .error e) ∨
      ∃ s s', r.lookup a = .ok s ∧ r.lookup b = .ok s' ∧ a.thread ≠ b.thread ∧
        r.lookupAlivePair a b = .ok (s, s') := by
  rcases r.lookupPair_cases a b with ⟨e, he, h⟩ | ⟨s, s', ha, hb, hab, h⟩
  · exact .inl ⟨e, he, by simp [lookupAlivePair, h, bind, Except.bind]⟩
  · cases hx : s'.exited with
    | true =>
      exact .inl ⟨.threadExited s'.id, rfl, by simp [lookupAlivePair, h, bind, Except.bind,
        ThreadState.ensureAlive, hx]⟩
    | false =>
      exact .inr ⟨s, s', ha, hb, hab, by simp [lookupAlivePair, h, bind, Except.bind,
        ThreadState.ensureAlive, hx, pure, Except.pure]⟩

theorem lookupAlive_cases (r : Registry K) (h : Handle) :
    (∃ e, e.isFatal = false ∧ r.lookupAlive h = .error e) ∨
      ∃ s, r.lookup h = .ok s ∧ r.lookupAlive h = .ok s := by
  cases hs : r.lookup h with
  | error e =>
    exact .inl ⟨e, lookup_eq_error hs ▸ rfl, by simp [lookupAlive, hs, bind, Except.bind]⟩
  | ok s =>
    cases hx : s.exited with
    | true =>
      exact .inl ⟨.threadExited s.id, rfl, by simp [lookupAlive, hs, bind, Except.bind,
        ThreadState.ensureAlive, hx]⟩
    | false =>
      exact .inr ⟨s, rfl, by simp [lookupAlive, hs, bind, Except.bind, ThreadState.ensureAlive,
        hx, pure, Except.pure]⟩

end Registry

/-- What threads and locks know, by a registry and a lock store. -/
def Knowledge.of {K : Nat} (r : Registry K) (l : LockStore K) : Knowledge K
  | .thread t => ((r.state? t).map (·.clock)).getD .zero
  | .lock lock => (l.clock? lock).getD .zero

namespace Knowledge

variable {K : Nat} {r : Registry K} {l : LockStore K} {t : Nat} {s s₀ : ThreadState K}

theorem of_thread (h : r.state? t = some s) : of r l (.thread t) = s.clock := by
  simp [of, h]

theorem of_put (h : r.state? t = some s₀) (hs : s.id = t) :
    of (r.put s) l = (of r l).replace (.thread t) s.clock := by
  funext q
  cases q with
  | thread u =>
    simp only [of, Registry.state?_put_of_some h hs]
    by_cases hu : u = t
    · subst hu
      simp
    · rw [if_neg hu, replace_of_ne _ _ (by simpa using hu)]
      rfl
  | lock lock => rw [replace_of_ne _ _ (by simp)]; rfl

theorem of_put_observe (h : r.state? t = some s) (hs : s.id = t) (q : Place) :
    of (r.put (s.observe (of r l q))) l = (of r l).learn q (.thread t) := by
  have hs' : (s.observe (of r l q)).id = t := hs
  rw [of_put h hs', learn, of_thread h]
  rfl

theorem of_put_next (h : r.state? t = some s) (hs : s.id = t) :
    of (r.put s.next) l = (of r l).tick t := by
  have hs' : s.next.id = t := hs
  rw [of_put h hs', tick, of_thread h, ← hs]
  rfl

theorem of_put_of_clock (h : r.state? t = some s₀) (hs : s.id = t) (hc : s.clock = s₀.clock) :
    of (r.put s) l = of r l := by
  rw [of_put h hs, hc, ← of_thread (l := l) h]
  exact Function.update_eq_self _ _

theorem of_add (r : Registry K) (l : LockStore K) :
    of (r.add (.first (ownerOf r.size))) l = (of r l).tick (ownerOf r.size) := by
  funext q
  cases q with
  | thread u =>
    simp only [of, Registry.state?_add, tick]
    by_cases hu : u = ownerOf r.size
    · subst hu
      rw [if_pos rfl, replace_target, Registry.state?_ownerOf_size]
      rfl
    · rw [if_neg hu, replace_of_ne _ _ (by simpa using hu)]
      rfl
  | lock lock =>
    rw [tick, replace_of_ne _ _ (by simp)]
    rfl

theorem of_touch (lock : Address) : of r (l.touch lock) = of r l := by
  funext q
  cases q with
  | thread t => rfl
  | lock l' =>
    simp only [of, LockStore.clock?_touch]
    by_cases h : lock = l'
    · subst h
      simp
    · rw [if_neg h]

theorem of_publish (lock : Address) (c : VectorClock K) :
    of r (l.publish lock c) = (of r l).replace (.lock lock) c := by
  funext q
  cases q with
  | thread t => rw [replace_of_ne _ _ (by simp)]; rfl
  | lock l' =>
    simp only [of, LockStore.clock?_publish]
    by_cases h : lock = l'
    · subst h
      simp
    · rw [if_neg h, replace_of_ne _ _ (by simpa using Ne.symm h)]
      rfl

theorem of_forget (lock : Address) :
    of r (l.forget lock).state = (of r l).replace (.lock lock) .zero := by
  funext q
  cases q with
  | thread t => rw [replace_of_ne _ _ (by simp)]; rfl
  | lock l' =>
    simp only [of, LockStore.clock?_forget]
    by_cases h : lock = l'
    · subst h
      simp
    · rw [if_neg h, replace_of_ne _ _ (by simpa using Ne.symm h)]
      rfl

end Knowledge

namespace Detector

variable {rule : Rule} {K : Nat} {d d' : Detector rule K} {t : Nat} {s : ThreadState K}
  {e : Event}

/-- What the threads and locks of a detector know. -/
def knowledge (d : Detector rule K) : Knowledge K := .of d.registry d.locks

/-- The books are in order. -/
structure Sound (d : Detector rule K) : Prop where
  capacity : K ≤ maxThread
  size_le : d.registry.size ≤ K
  threads : ∀ t s, d.state? t = some s → s.Sound t
  owned : d.knowledge.Owned

/-- A step of a detector does to the books what the event says. -/
structure Follows (d d' : Detector rule K) (e : Event) : Prop where
  size_le : d'.registry.size ≤ K
  threads : ∀ t s, d'.state? t = some s → s.Sound t
  knowledge_eq : d'.knowledge = d.knowledge.follow rule e
  admits : e.effective = true → d.knowledge.Admits rule e

theorem Follows.sound (h : d.Follows d' e) (hd : d.Sound) : d'.Sound :=
  ⟨hd.capacity, h.size_le, h.threads, h.knowledge_eq ▸ hd.owned.follow rule e⟩

theorem own_knowledge (h : d.state? t = some s) :
    d.knowledge.own t = s.clock.time t := by
  rw [Knowledge.own, knowledge, Knowledge.of_thread h]

theorem own_knowledge_of_none (h : d.state? t = none) : d.knowledge.own t = 0 := by
  have h : d.registry.state? t = none := h
  rw [Knowledge.own, knowledge, Knowledge.of, h]
  exact time_zero t

theorem Sound.own_pos (hd : d.Sound) (h : d.state? t = some s) : 0 < d.knowledge.own t := by
  rw [own_knowledge h]
  exact (hd.threads t s h).time_pos

/-- The cached epoch of a thread is made of its identity and its own coordinate. -/
theorem Sound.construct_epoch (hd : d.Sound) (h : d.state? t = some s) :
    Epoch.construct t (s.clock.time t) = .ok s.epoch := by
  have hs := hd.threads t s h
  rw [Epoch.construct_eq_pack (hs.fits.2.trans hd.capacity) hs.time_le, hs.epoch_eq]

theorem Sound.observe (hd : d.Sound) (h : d.state? t = some s) (q : Place) :
    (s.observe (d.knowledge q)).Sound t :=
  (hd.threads t s h).observe (own_knowledge h ▸ hd.owned q t)

theorem Sound.put (hd : d.Sound) {s₀ : ThreadState K} (h : d.state? t = some s₀) (hs : s.Sound t) :
    ∀ u x, (d.registry.put s).state? u = some x → x.Sound u := by
  intro u x hx
  rw [Registry.state?_put_of_some h hs.id_eq] at hx
  by_cases hu : u = t
  · subst hu
    rw [if_pos rfl, Option.some.injEq] at hx
    exact hx ▸ hs
  · rw [if_neg hu] at hx
    exact hd.threads u x hx

/-- An event that does not take part in the order leaves the books as they are. -/
theorem Sound.follows_of_refused (hd : d.Sound) (hr : d'.registry = d.registry)
    (hk : d'.knowledge = d.knowledge) (he : e.effective = false) : d.Follows d' e where
  size_le := hr ▸ hd.size_le
  threads t s h := hd.threads t s (by rwa [state?, ← hr])
  knowledge_eq := by rw [hk, Knowledge.follow_of_not_effective he]
  admits h := by simp [he] at h

theorem not_effective_of_error {op : Op Handle} {error : Error} (h : error.isFatal = false) :
    (⟨op, .error (.error error)⟩ : Event).effective = false := by
  cases error <;> simp_all [Error.isFatal, Event.effective, Event.succeeded, Event.overflowed]

/-- An operation that is refused as a misuse leaves the books as they are. -/
theorem Sound.follows_of_fail (hd : d.Sound) {op : Op Handle} {error : Error} {notes : List Note}
    (hstep : d.step op = .fail d' error notes) (he : error.isFatal = false)
    (hr : d'.registry = d.registry) (hk : d'.knowledge = d.knowledge) :
    d.Follows (d.step op).state ⟨op, (d.step op).result⟩ := by
  rw [hstep]
  exact hd.follows_of_refused hr hk (not_effective_of_error he)

/-! ### The operations one by one -/

/-- A transfer is what forks and joins have in common. -/
theorem Sound.follows_transfer (hd : d.Sound) {g r : Nat} {giver receiver : ThreadState K}
    (hg : d.state? g = some giver) (hr : d.state? r = some receiver) (hgr : g ≠ r)
    (note : Epoch → Note) {op : Op Handle} (hop : op.handsOn = true)
    (hpass : ∀ k : Knowledge K, k.pass op = k.learn (.thread g) (.thread r))
    (htick : ∀ v, (⟨op, .ok v⟩ : Event).ticker? rule = some g)
    (hadmits : ∀ result, d.knowledge.Admits rule ⟨op, result⟩) :
    d.Follows { d with registry := (d.registry.transfer giver receiver note).state }
      ⟨op, (d.registry.transfer giver receiver note).result.map fun () => .unit⟩ := by
  have hgiver := hd.threads g giver hg
  have hreceiver := hd.threads r receiver hr
  have hclock : d.knowledge (.thread g) = giver.clock := Knowledge.of_thread hg
  have hobs : (receiver.observe giver.clock).Sound r := hclock ▸ hd.observe hr (.thread g)
  have hlearn : Knowledge.of (d.registry.put (receiver.observe giver.clock)) d.locks =
      d.knowledge.learn (.thread g) (.thread r) :=
    hclock ▸ Knowledge.of_put_observe hr hreceiver.id_eq (.thread g)
  have hg' : (d.registry.put (receiver.observe giver.clock)).state? g = some giver := by
    rw [Registry.state?_put_of_some hr hobs.id_eq, if_neg hgr]
    exact hg
  have hsound : Sound { d with registry := d.registry.put (receiver.observe giver.clock) } :=
    ⟨hd.capacity, by simpa using hd.size_le, hd.put hr hobs, by
      rw [knowledge, hlearn, ← hpass]
      exact hd.owned.pass op⟩
  -- The receiver has learnt before the giver ticks, so that an overflow only leaves out
  -- the tick.
  rcases hgiver.tick_cases hd.capacity with ⟨hmax, htk⟩ | ⟨v, htk⟩
  · simp only [Registry.transfer, htk, Reply.state_done, Reply.result_done]
    refine ⟨by simpa using hd.size_le, hsound.put hg' (hgiver.next hmax), ?_, fun _ => hadmits _⟩
    rw [Knowledge.follow_of_effective rfl, Except.map, htick, hpass, Knowledge.tick?, ← hlearn,
      ← Knowledge.of_put_next hg' hgiver.id_eq]
    rfl
  · simp only [Registry.transfer, htk, Reply.state_halt, Reply.result_halt]
    refine ⟨by simpa using hd.size_le, hd.put hr hobs, ?_, fun _ => hadmits _⟩
    have hnone : (⟨op, .error (.error (.fatal (.clockOverflow g v)))⟩ : Event).ticker? rule =
        none := by
      cases op <;> rfl
    rw [Knowledge.follow_of_effective (by simpa [Event.effective, Event.succeeded,
      Event.overflowed, Except.map, Failure.map] using hop)]
    simp only [Except.map, Failure.map, hnone, Knowledge.tick?, hpass]
    exact hlearn

/-- An operation that names one thread of the detector can count on it. -/
theorem Sound.admits_one (hd : d.Sound) {h : Handle} (hs : d.state? h.thread = some s)
    (he : e.op.threads = [h]) (htick : ∀ t, e.ticker? rule = some t → t = h.thread) :
    d.knowledge.Admits rule e where
  known u hu := by
    obtain rfl : u = h := by simpa [he] using hu
    exact hd.own_pos hs
  distinct p c hop := by rcases hop with hop | hop <;> simp [hop, Op.threads] at he
  fits t ht := htick t ht ▸ (hd.threads _ s hs).fits

/-- An operation that names two different threads of the detector can count on them. -/
theorem Sound.admits_pair (hd : d.Sound) {p c : Handle} {s' : ThreadState K}
    (hp : d.state? p.thread = some s) (hc : d.state? c.thread = some s')
    (hpc : p.thread ≠ c.thread) (he : e.op = .fork p c ∨ e.op = .join p c) :
    d.knowledge.Admits rule e where
  known u hu := by
    obtain rfl | rfl : u = p ∨ u = c := by
      rcases he with he | he <;> simpa [he, Op.threads] using hu
    · exact hd.own_pos hp
    · exact hd.own_pos hc
  distinct p' c' hop := by rcases he with he | he <;> rcases hop with hop | hop <;> simp_all
  fits t ht := by
    obtain rfl | rfl : t = p.thread ∨ t = c.thread := by
      cases hr : e.result <;> rcases he with he | he <;> simp_all [Event.ticker?]
    · exact (hd.threads _ s hp).fits
    · exact (hd.threads _ s' hc).fits

theorem Sound.follows_fork (hd : d.Sound) (p c : Handle) :
    d.Follows (d.step (.fork p c)).state ⟨.fork p c, (d.step (.fork p c)).result⟩ := by
  rcases d.registry.lookupAlivePair_cases p c with ⟨e, he, h⟩ | ⟨s, s', hp, hc, hpc, h⟩
  · have hfork : d.registry.fork p c = .fail d.registry e [] := by simp [Registry.fork, h]
    have hstep : d.step (.fork p c) = .fail d e [] := by
      rw [step, fork, hfork]
      rfl
    exact hd.follows_of_fail hstep he rfl rfl
  · have hp := Registry.state?_of_lookup hp
    have hc := Registry.state?_of_lookup hc
    have hfork : d.registry.fork p c = d.registry.transfer s s' (.forked s.id s'.id) := by
      simp [Registry.fork, h]
    simp only [step, fork, hfork, Reply.state_mapResult, Reply.state_mapState,
      Reply.result_mapResult, Reply.result_mapState]
    exact hd.follows_transfer hp hc hpc _ rfl (fun _ => rfl) (fun _ => rfl)
      fun _ => hd.admits_pair hp hc hpc (.inl rfl)

theorem Sound.follows_join (hd : d.Sound) (p c : Handle) :
    d.Follows (d.step (.join p c)).state ⟨.join p c, (d.step (.join p c)).result⟩ := by
  rcases d.registry.lookupPair_cases p c with ⟨e, he, h⟩ | ⟨s, s', hp, hc, hpc, h⟩
  · have hjoin : d.registry.join p c = .fail d.registry e [] := by simp [Registry.join, h]
    have hstep : d.step (.join p c) = .fail d e [] := by
      rw [step, join, hjoin]
      rfl
    exact hd.follows_of_fail hstep he rfl rfl
  · have hp := Registry.state?_of_lookup hp
    have hc := Registry.state?_of_lookup hc
    have hjoin : d.registry.join p c = d.registry.transfer s' s (.joined s.id s'.id) := by
      simp [Registry.join, h]
    simp only [step, join, hjoin, Reply.state_mapResult, Reply.state_mapState,
      Reply.result_mapResult, Reply.result_mapState]
    exact hd.follows_transfer hc hp hpc.symm _ rfl (fun _ => rfl) (fun _ => rfl)
      fun _ => hd.admits_pair hp hc hpc (.inr rfl)

theorem Sound.follows_exit (hd : d.Sound) (h : Handle) :
    d.Follows (d.step (.exit h)).state ⟨.exit h, (d.step (.exit h)).result⟩ := by
  rcases d.registry.lookupAlive_cases h with ⟨e, he, hl⟩ | ⟨s, hs, hl⟩
  · have hexit : d.registry.exit h = .fail d.registry e [] := by simp [Registry.exit, hl]
    have hstep : d.step (.exit h) = .fail d e [] := by
      rw [step, exit, hexit]
      rfl
    exact hd.follows_of_fail hstep he rfl rfl
  · have hs := Registry.state?_of_lookup hs
    have hsound := (hd.threads _ s hs).exit
    have hexit : d.registry.exit h = .done (d.registry.put s.exit) () [.exited s.id] := by
      simp [Registry.exit, hl]
    simp only [step, exit, hexit, Reply.state_mapResult, Reply.state_mapState,
      Reply.result_mapResult, Reply.result_mapState, Reply.state_done, Reply.result_done]
    refine ⟨by simpa using hd.size_le, hd.put hs hsound, ?_, fun _ => ?_⟩
    · rw [Knowledge.follow_of_effective rfl]
      exact Knowledge.of_put_of_clock hs hsound.id_eq rfl
    · exact hd.admits_one hs rfl fun t ht => by simp [Event.ticker?] at ht

theorem Sound.follows_acquire (hd : d.Sound) (lock : Address) (h : Handle) :
    d.Follows (d.step (.acquire lock h)).state
      ⟨.acquire lock h, (d.step (.acquire lock h)).result⟩ := by
  cases hl : d.registry.lookup h with
  | error e =>
    have hacq : d.acquire lock h = .fail d e [] := by simp [acquire, hl]
    have hstep : d.step (.acquire lock h) = .fail d e [] := by
      rw [step, hacq]
      rfl
    exact hd.follows_of_fail hstep (Registry.lookup_eq_error hl ▸ rfl) rfl rfl
  | ok s =>
    have hs := Registry.state?_of_lookup hl
    have hid := (hd.threads _ s hs).id_eq
    have hclock : (d.locks.clock? lock).getD .zero = d.knowledge (.lock lock) := rfl
    cases hx : s.exited with
    | true =>
      have hacq : d.acquire lock h = .fail { d with locks := d.locks.touch lock }
          (.threadExited s.id) [] := by
        simp [acquire, hl, LockStore.acquire, ThreadState.ensureAlive, hx, Reply.mapState,
          Reply.fail, Registry.put_self hs hid]
      have hstep : d.step (.acquire lock h) =
          .fail { d with locks := d.locks.touch lock } (.threadExited s.id) [] := by
        rw [step, hacq]
        rfl
      exact hd.follows_of_fail hstep rfl rfl (Knowledge.of_touch lock)
    | false =>
      have hsound := hd.observe hs (.lock lock)
      have hacq : d.acquire lock h = .done
          { d with
            locks := d.locks.touch lock
            registry := d.registry.put (s.observe (d.knowledge (.lock lock))) }
          () [.acquired lock s.id] := by
        simp [acquire, hl, LockStore.acquire, ThreadState.ensureAlive, hx, Reply.mapState,
          Reply.done, hclock]
      simp only [step, hacq, Reply.state_mapResult, Reply.result_mapResult, Reply.state_done,
        Reply.result_done]
      refine ⟨by simpa using hd.size_le, hd.put hs hsound, ?_, fun _ => ?_⟩
      · rw [Knowledge.follow_of_effective rfl]
        simp only [knowledge, Knowledge.of_touch]
        exact Knowledge.of_put_observe hs hid (.lock lock)
      · exact hd.admits_one hs rfl fun t ht => by simp [Event.ticker?] at ht

theorem Sound.follows_release (hd : d.Sound) (lock : Address) (h : Handle) :
    d.Follows (d.step (.release lock h)).state
      ⟨.release lock h, (d.step (.release lock h)).result⟩ := by
  cases hl : d.registry.lookup h with
  | error e =>
    have hrel : d.release lock h = .fail d e [] := by simp [release, hl]
    have hstep : d.step (.release lock h) = .fail d e [] := by
      rw [step, hrel]
      rfl
    exact hd.follows_of_fail hstep (Registry.lookup_eq_error hl ▸ rfl) rfl rfl
  | ok s =>
    have hs := Registry.state?_of_lookup hl
    have hsound := hd.threads _ s hs
    have hid := hsound.id_eq
    cases hx : s.exited with
    | true =>
      have hrel : d.release lock h = .fail { d with locks := d.locks.touch lock }
          (.threadExited s.id) [] := by
        simp [release, hl, LockStore.release, ThreadState.ensureAlive, hx, Reply.mapState,
          Reply.fail, Registry.put_self hs hid]
      have hstep : d.step (.release lock h) =
          .fail { d with locks := d.locks.touch lock } (.threadExited s.id) [] := by
        rw [step, hrel]
        rfl
      exact hd.follows_of_fail hstep rfl rfl (Knowledge.of_touch lock)
    | false =>
      have hpub : Knowledge.of d.registry (d.locks.publish lock s.clock) =
          d.knowledge.pass (.release lock h) := by
        rw [Knowledge.of_publish, Knowledge.pass, knowledge, Knowledge.of_thread hs]
      have hadmits (result) : d.knowledge.Admits rule ⟨.release lock h, result⟩ := by
        refine hd.admits_one hs rfl fun t ht => ?_
        cases result <;> simp_all [Event.ticker?]
      rcases hsound.tick_cases hd.capacity with ⟨hmax, htk⟩ | ⟨v, htk⟩
      · have hrel : d.release lock h = .done
            { d with locks := d.locks.publish lock s.clock, registry := d.registry.put s.next }
            () [.released lock s.next.id s.next.epoch] := by
          simp [release, hl, LockStore.release, ThreadState.ensureAlive, hx, htk, Reply.mapState,
            Reply.done]
        simp only [step, hrel, Reply.state_mapResult, Reply.result_mapResult, Reply.state_done,
          Reply.result_done]
        refine ⟨by simpa using hd.size_le, hd.put hs (hsound.next hmax), ?_, fun _ => hadmits _⟩
        rw [Knowledge.follow_of_effective rfl, ← hpub]
        exact Knowledge.of_put_next hs hid
      · have hrel : d.release lock h = .halt
            { d with locks := d.locks.publish lock s.clock } []
            (.error (.clockOverflow h.thread v)) := by
          simp [release, hl, LockStore.release, ThreadState.ensureAlive, hx, htk, Reply.mapState,
            Reply.halt, Reply.fail, Registry.put_self hs hid]
        simp only [step, hrel, Reply.state_mapResult, Reply.result_mapResult, Reply.state_halt,
          Reply.result_halt]
        refine ⟨hd.size_le, hd.threads, ?_, fun _ => hadmits _⟩
        rw [Knowledge.follow_of_effective rfl, ← hpub]
        rfl

theorem Sound.follows_forgetLock (hd : d.Sound) (lock : Address) :
    d.Follows (d.step (.forgetLock lock)).state
      ⟨.forgetLock lock, (d.step (.forgetLock lock)).result⟩ where
  size_le := hd.size_le
  threads := hd.threads
  knowledge_eq := by
    rw [Knowledge.follow_of_effective rfl]
    exact Knowledge.of_forget lock
  admits _ := ⟨by simp [Op.threads], by simp, fun t ht => by simp [Event.ticker?] at ht⟩

theorem Sound.follows_start (hd : d.Sound) :
    d.Follows (d.step .start).state ⟨.start, (d.step .start).result⟩ := by
  by_cases hcap : K = 0 ∨ maxThread < K
  · have hreg : d.registry.register = .fail d.registry (.invalidCapacity K) [] := by
      simp [Registry.register, checkCapacity, hcap]
    have hstep : d.step .start = .fail d (.invalidCapacity K) [] := by
      rw [step, start, hreg]
      rfl
    exact hd.follows_of_fail hstep rfl rfl rfl
  by_cases hfull : K < ownerOf d.registry.size
  · have hreg : d.registry.register = .fail d.registry (.capacityExceeded K) [] := by
      simp [Registry.register, checkCapacity, hcap, hfull]
    have hstep : d.step .start = .fail d (.capacityExceeded K) [] := by
      rw [step, start, hreg]
      rfl
    exact hd.follows_of_fail hstep rfl rfl rfl
  have hfits : Fits K (ownerOf d.registry.size) :=
    ⟨Nat.succ_ne_zero _, Nat.le_of_not_lt hfull⟩
  have hreg : d.registry.register = .done (d.registry.add (.first (ownerOf d.registry.size)))
      ⟨d.registry.tag, ownerOf d.registry.size⟩ [.registered (ownerOf d.registry.size)] := by
    simp [Registry.register, checkCapacity, hcap, hfull, ThreadState.fresh_eq hfits hd.capacity,
      Registry.add]
  simp only [step, start, hreg, Reply.state_mapResult, Reply.state_mapState,
    Reply.result_mapResult, Reply.result_mapState, Reply.state_done, Reply.result_done]
  refine ⟨?_, ?_, ?_, fun _ => ⟨by simp [Op.threads], by simp, fun t ht => ?_⟩⟩
  · simpa [Registry.add, Registry.size, ownerOf, Nat.succ_le_iff] using Nat.le_of_not_lt hfull
  · intro t s hs
    simp only [state?, Registry.state?_add] at hs
    by_cases ht : t = ownerOf d.registry.size
    · subst ht
      rw [if_pos rfl, Option.some.injEq] at hs
      exact hs ▸ ThreadState.sound_first hfits
    · rw [if_neg ht] at hs
      exact hd.threads t s hs
  · rw [Knowledge.follow_of_effective rfl]
    exact Knowledge.of_add _ _
  · exact Option.some.inj ht ▸ hfits

theorem Sound.follows_access (hd : d.Sound) (h : Handle) (a : Access) :
    d.Follows (d.step (.access h a)).state ⟨.access h a, (d.step (.access h a)).result⟩ := by
  rcases d.access_cases h a with ⟨⟨error, hr⟩, hspares⟩ | ⟨hr, s, checked, hpass⟩
  · refine hd.follows_of_refused hspares.registry_eq ?_ ?_
    · rw [knowledge, hspares.registry_eq, hspares.locks_eq, knowledge]
    · rw [hr, Event.effective_of_access rfl]
      rfl
  · have hs := hpass.state?_eq
    have hsound := hd.threads _ s hs
    have hid := hsound.id_eq
    have hadmits : d.knowledge.Admits rule ⟨.access h a, .ok .unit⟩ := by
      refine hd.admits_one hs rfl fun t ht => ?_
      cases rule <;> simp_all [Event.ticker?]
    rw [hr]
    obtain ⟨f, hf, hthread, -⟩ := Entry.check_eq_ok hpass.check_eq
    rcases Rule.check_thread hf with ⟨rfl, hsame⟩ | ⟨rfl, htick⟩
    · have hreg : (d.step (.access h a)).state.registry = d.registry := by
        rw [hpass.registry_eq, hthread, hsame, Registry.put_self hs hid]
      refine ⟨hreg ▸ hd.size_le, fun t s ht => hd.threads t s (by rwa [state?, ← hreg]), ?_,
        fun _ => hadmits⟩
      rw [knowledge, hreg, hpass.locks_eq, Knowledge.follow_of_effective rfl]
      rfl
    · rcases hsound.tick_cases hd.capacity with ⟨hmax, hnext⟩ | ⟨v, hnext⟩
      · have hreg : (d.step (.access h a)).state.registry = d.registry.put s.next := by
          rw [hpass.registry_eq, hthread, Except.ok.inj (htick.symm.trans hnext)]
        refine ⟨by simpa [hreg] using hd.size_le,
          fun t s' ht => hd.put hs (hsound.next hmax) t s' (by rwa [← hreg]), ?_, fun _ => hadmits⟩
        rw [knowledge, hreg, hpass.locks_eq, Knowledge.follow_of_effective rfl]
        exact Knowledge.of_put_next hs hid
      · simp [hnext] at htick

/-- Every step does to the books what its event says. -/
theorem Sound.follows_step (hd : d.Sound) (op : Op Handle) :
    d.Follows (d.step op).state ⟨op, (d.step op).result⟩ := by
  cases op with
  | start => exact hd.follows_start
  | fork p c => exact hd.follows_fork p c
  | join p c => exact hd.follows_join p c
  | exit h => exact hd.follows_exit h
  | acquire lock h => exact hd.follows_acquire lock h
  | release lock h => exact hd.follows_release lock h
  | forgetLock lock => exact hd.follows_forgetLock lock
  | access h a => exact hd.follows_access h a
  | init x => exact ⟨hd.size_le, hd.threads, rfl, fun _ => ⟨by simp [Op.threads], by simp,
      fun t ht => by simp [Event.ticker?] at ht⟩⟩
  | forget x => exact ⟨hd.size_le, hd.threads, rfl, fun _ => ⟨by simp [Op.threads], by simp,
      fun t ht => by simp [Event.ticker?] at ht⟩⟩

/-! ### Runs -/

theorem create_eq_ok {config : Config} {tag : Nat} (h : create rule K config tag = .ok d) :
    K ≤ maxThread ∧ d = ⟨config, .empty tag, .empty, .empty, 0⟩ := by
  obtain ⟨u, hcap, h⟩ := bind_eq_ok.mp h
  refine ⟨?_, (Except.ok.inj h).symm⟩
  by_contra hK
  simp [checkCapacity, Nat.lt_of_not_le hK] at hcap

variable {config : Config} {tag : Nat}

theorem knowledge_create (h : create rule K config tag = .ok d) :
    d.knowledge = fun _ => .zero := by
  obtain ⟨-, rfl⟩ := create_eq_ok h
  funext q
  cases q with
  | thread t => simp [knowledge, Knowledge.of, Registry.empty, Registry.state?]
  | lock lock => simp [knowledge, Knowledge.of]

theorem sound_create (h : create rule K config tag = .ok d) : d.Sound := by
  have hk := knowledge_create h
  obtain ⟨hK, rfl⟩ := create_eq_ok h
  refine ⟨hK, Nat.zero_le _, fun t s hs => ?_, fun q t => ?_⟩
  · simp [state?, Registry.empty, Registry.state?] at hs
  · rw [hk, time_zero]
    exact Nat.zero_le _

theorem sound_after (h : create rule K config tag = .ok d) (ops : List (Op Handle)) (n : Nat) :
    (d.after ops n).Sound := by
  induction n with
  | zero => exact sound_create h
  | succ n ih =>
    cases hop : ops[n]? with
    | none => rwa [after_succ_of_none d hop]
    | some op =>
      rw [after_succ d hop]
      exact (ih.follows_step op).sound ih

theorem sound_run (h : create rule K config tag = .ok d) (ops : List (Op Handle)) :
    (d.run ops).Sound := by
  rw [← after_length]
  exact sound_after h ops ops.length

/-- The clocks of a detector are those that its chronicle determines. -/
theorem knowledge_after (h : create rule K config tag = .ok d) (ops : List (Op Handle)) (n : Nat) :
    (d.after ops n).knowledge = (d.chronicle ops).knownAt rule K n := by
  induction n with
  | zero => exact knowledge_create h
  | succ n ih =>
    cases hop : ops[n]? with
    | none =>
      have he : (d.chronicle ops)[n]? = none := by rw [getElem?_chronicle, hop]; rfl
      rw [after_succ_of_none d hop, Chronicle.knownAt_succ_of_none he, ih]
    | some op =>
      have he := getElem?_chronicle d ops n
      rw [hop] at he
      rw [after_succ d hop, Chronicle.knownAt_succ he, ← ih]
      exact ((sound_after h ops n).follows_step op).knowledge_eq

theorem legal_chronicle (h : create rule K config tag = .ok d) (ops : List (Op Handle)) :
    (d.chronicle ops).Legal rule K := by
  intro i e he
  rw [← knowledge_after h]
  have hresult := (step_of_getElem? he.1).1
  have hfollows := (sound_after h ops i).follows_step e.op
  rw [← hresult] at hfollows
  exact hfollows.admits he.2

/-- The clock of a thread is what the chronicle says is known to it. -/
theorem clock_after (h : create rule K config tag = .ok d) {ops : List (Op Handle)} {n : Nat}
    (hs : (d.after ops n).state? t = some s) :
    s.clock = (d.chronicle ops).knownAt rule K n (.thread t) := by
  rw [← knowledge_after h]
  exact (Knowledge.of_thread hs).symm

end Detector

end RaceWatch
