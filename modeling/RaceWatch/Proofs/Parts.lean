import RaceWatch.Proofs.Lockstep

/-!
What an operation looks at and what it changes. What a detector keeps falls into parts: its
threads, its locks and its locations. An operation is about the threads that it names, a lock
and a location. It does the same to two detectors that agree on these parts, and it leaves all
other parts alone. Only the start of a thread is about no part in particular, since a new thread
gets the next identity.
-/

namespace RaceWatch

/-- The lock that an operation is about. -/
def Op.lock? {ρ : Type} : Op ρ → Option Address
  | .acquire lock _ | .release lock _ | .forgetLock lock => some lock
  | .start | .fork .. | .join .. | .exit _ | .access .. | .init _ | .forget _ => none

/-- A part of what a detector keeps. -/
inductive Part where
  | thread (h : Handle)
  | lock (lock : Address)
  | location (address : Address)

/-- An operation is about a part. -/
def Op.Concerns (op : Op Handle) : Part → Prop
  | .thread h => h ∈ op.threads
  | .lock lock => op.lock? = some lock
  | .location x => op.location? = some x

namespace ThreadState

variable {K : Nat} {s s' : ThreadState K}

theorem id_of_tick (h : s.tick = .ok s') : s'.id = s.id := by
  obtain ⟨⟨value, clock⟩, -, h⟩ := bind_eq_ok.mp h
  obtain ⟨epoch, -, h⟩ := bind_eq_ok.mp h
  obtain rfl := Except.ok.inj h
  rfl

end ThreadState

theorem Rule.id_of_check {rule : Rule} {K : Nat} {h : rule.History K} {s : ThreadState K}
    {a : Access} {f : Finding (rule.History K) K} (hf : rule.check h s a = .ok f) :
    f.thread.id = s.id := by
  rcases Rule.check_thread hf with ⟨rfl, hsame⟩ | ⟨rfl, htick⟩
  · rw [hsame]
  · exact ThreadState.id_of_tick htick

theorem Entry.id_of_check {rule : Rule} {K : Nat} {entry : Entry rule K} {config : Config}
    {s : ThreadState K} {a : Access} {checked : CheckedAccess rule K}
    (h : entry.check config s a = .ok checked) : checked.thread.id = s.id := by
  obtain ⟨f, hf, hthread, -⟩ := check_eq_ok h
  rw [hthread, Rule.id_of_check hf]

/-! The flags tell what was kept. -/

theorem LockStore.result_forget {K : Nat} (s : LockStore K) (lock : Address) :
    (s.forget lock).result = .ok (s.clock? lock).isSome :=
  congrArg _ Std.ExtTreeMap.contains_eq_isSome_getElem?

theorem ShadowMemory.result_init {ε : Type} (m : ShadowMemory ε) (x : Address) (neutral : ε) :
    (m.init x neutral).result = .ok !(m.get? x).isSome :=
  congrArg (fun b => Except.ok !b) Std.ExtTreeMap.contains_eq_isSome_getElem?

theorem ShadowMemory.result_forget {ε : Type} (m : ShadowMemory ε) (x : Address) :
    (m.forget x).result = .ok (m.get? x).isSome :=
  congrArg _ Std.ExtTreeMap.contains_eq_isSome_getElem?

/-! ### The threads of a registry, by their handles -/

namespace Registry

variable {K : Nat} {r r' : Registry K} {s : ThreadState K} {h a b : Handle}

theorem lookup_put (hs : s.id ≠ noThread) (h : Handle) :
    (r.put s).lookup h =
      if s.id = h.thread then (r.lookup h).map fun _ => s else r.lookup h := by
  simp only [lookup, tag_put, state?_put r hs]
  by_cases howner : h.owner = r.tag <;> by_cases hid : s.id = h.thread
  · simp only [howner, hid, if_true]
    cases r.state? h.thread <;> rfl
  · simp only [hid, if_false]
  · simp only [howner, hid, if_true, if_false]
    rfl
  · simp only [hid, if_false]

/-- To write back one thread does nothing to the others. -/
theorem lookup_put_of_ne (hs : s.id ≠ noThread) (hne : h ≠ ⟨r.tag, s.id⟩) :
    (r.put s).lookup h = r.lookup h := by
  rw [lookup_put hs]
  split
  · next hid =>
    cases hl : r.lookup h with
    | error e => rfl
    | ok t => exact absurd (Handle.mk.injEq .. ▸ ⟨(lookup_eq_ok.mp hl).1, hid.symm⟩) hne
  · rfl

theorem lookup_put_congr (hs : s.id ≠ noThread) (hh : r'.lookup h = r.lookup h) :
    (r'.put s).lookup h = (r.put s).lookup h := by
  rw [lookup_put hs, lookup_put hs, hh]

variable {giver receiver : ThreadState K} {note : Epoch → Note}

theorem lookup_transfer_of_ne (hg : giver.id ≠ noThread) (hr : receiver.id ≠ noThread)
    (hne : h ≠ ⟨r.tag, giver.id⟩) (hne' : h ≠ ⟨r.tag, receiver.id⟩) :
    (r.transfer giver receiver note).state.lookup h = r.lookup h := by
  have hobserved : (r.put (receiver.observe giver.clock)).lookup h = r.lookup h :=
    lookup_put_of_ne hr hne'
  simp only [transfer]
  cases htick : giver.tick with
  | error f => rwa [Reply.state_halt]
  | ok s =>
    have hid := ThreadState.id_of_tick htick
    rw [Reply.state_done, lookup_put_of_ne (by rwa [hid]) (by rwa [hid]), hobserved]

/-- The same transfer in two registries. -/
theorem transfer_congr (r r' : Registry K) (hg : giver.id ≠ noThread)
    (hr : receiver.id ≠ noThread) :
    (r'.transfer giver receiver note).result = (r.transfer giver receiver note).result ∧
      ∀ h, r'.lookup h = r.lookup h → (r'.transfer giver receiver note).state.lookup h =
        (r.transfer giver receiver note).state.lookup h := by
  have hobserved (h : Handle) (hh : r'.lookup h = r.lookup h) :
      (r'.put (receiver.observe giver.clock)).lookup h =
        (r.put (receiver.observe giver.clock)).lookup h := lookup_put_congr hr hh
  simp only [transfer]
  cases htick : giver.tick with
  | error f =>
    simp only [Reply.result_halt, Reply.state_halt]
    exact ⟨trivial, hobserved⟩
  | ok s =>
    have hs : s.id ≠ noThread := ThreadState.id_of_tick htick ▸ hg
    exact ⟨rfl, fun h hh => lookup_put_congr hs (hobserved h hh)⟩

theorem lookupPair_congr (ha : r'.lookup a = r.lookup a) (hb : r'.lookup b = r.lookup b) :
    r'.lookupPair a b = r.lookupPair a b := by
  simp only [lookupPair, ha, hb]

theorem fork_congr (ha : r'.lookup a = r.lookup a) (hb : r'.lookup b = r.lookup b)
    (hids : ∀ t s, r.lookup t = .ok s → s.id ≠ noThread) :
    (r'.fork a b).result = (r.fork a b).result ∧
      ∀ h, r'.lookup h = r.lookup h →
        (r'.fork a b).state.lookup h = (r.fork a b).state.lookup h := by
  have hpair : r'.lookupAlivePair a b = r.lookupAlivePair a b := by
    simp only [lookupAlivePair, lookupPair_congr ha hb]
  simp only [fork, hpair]
  rcases r.lookupAlivePair_cases a b with ⟨e, -, hl⟩ | ⟨s, s', hs, hs', -, hl⟩
  · simp only [hl]
    exact ⟨rfl, fun h hh => hh⟩
  · simp only [hl]
    exact transfer_congr r r' (hids a s hs) (hids b s' hs')

theorem join_congr (ha : r'.lookup a = r.lookup a) (hb : r'.lookup b = r.lookup b)
    (hids : ∀ t s, r.lookup t = .ok s → s.id ≠ noThread) :
    (r'.join a b).result = (r.join a b).result ∧
      ∀ h, r'.lookup h = r.lookup h →
        (r'.join a b).state.lookup h = (r.join a b).state.lookup h := by
  simp only [join, lookupPair_congr ha hb]
  rcases r.lookupPair_cases a b with ⟨e, -, hl⟩ | ⟨s, s', hs, hs', -, hl⟩
  · simp only [hl]
    exact ⟨rfl, fun h hh => hh⟩
  · simp only [hl]
    exact transfer_congr r r' (hids b s' hs') (hids a s hs)

theorem exit_congr (ha : r'.lookup a = r.lookup a)
    (hids : ∀ t s, r.lookup t = .ok s → s.id ≠ noThread) :
    (r'.exit a).result = (r.exit a).result ∧
      ∀ h, r'.lookup h = r.lookup h →
        (r'.exit a).state.lookup h = (r.exit a).state.lookup h := by
  have halive : r'.lookupAlive a = r.lookupAlive a := by simp only [lookupAlive, ha]
  simp only [exit, halive]
  rcases r.lookupAlive_cases a with ⟨e, -, hl⟩ | ⟨s, hs, hl⟩
  · simp only [hl]
    exact ⟨rfl, fun h hh => hh⟩
  · simp only [hl]
    exact ⟨rfl, fun h hh => lookup_put_congr (s := s.exit) (hids a s hs) hh⟩

/-- A registry is known by its tag and its threads. -/
theorem ext_lookup (htag : r'.tag = r.tag) (h : ∀ t, r'.lookup t = r.lookup t) : r' = r := by
  obtain ⟨tag, threads⟩ := r
  obtain ⟨tag', threads'⟩ := r'
  obtain rfl : tag' = tag := htag
  refine congrArg _ (List.ext_getElem? fun i => ?_)
  have hi := h ⟨tag', ownerOf i⟩
  simp only [lookup, state?, ownerOf, noThread, coordinateOf, if_true, Nat.add_one_ne_zero,
    if_false, Nat.add_sub_cancel] at hi
  generalize threads[i]? = t at hi ⊢
  generalize threads'[i]? = t' at hi ⊢
  cases t <;> cases t' <;> simp_all

end Registry

namespace Detector

variable {rule : Rule} {K : Nat} {d d' : Detector rule K} {op op' : Op Handle}

/-- Two detectors have the same in one part. -/
def SameAt (d d' : Detector rule K) : Part → Prop
  | .thread h => d'.registry.lookup h = d.registry.lookup h
  | .lock lock => d'.lockClock? lock = d.lockClock? lock
  | .location x => d'.entryAt? x = d.entryAt? x

theorem SameAt.symm {part : Part} (h : d.SameAt d' part) : d'.SameAt d part := by
  cases part <;> exact Eq.symm h

theorem SameAt.trans {d'' : Detector rule K} {part : Part} (h : d.SameAt d' part)
    (h' : d'.SameAt d'' part) : d.SameAt d'' part := by
  cases part <;> exact Eq.trans h' h

theorem eq_of_sameAt (hconfig : d'.config = d.config) (htag : d'.registry.tag = d.registry.tag)
    (htotal : d'.totalRaces = d.totalRaces) (h : ∀ part, d.SameAt d' part) : d' = d := by
  obtain ⟨config, registry, locks, shadow, total⟩ := d
  obtain ⟨config', registry', locks', shadow', total'⟩ := d'
  obtain rfl : config' = config := hconfig
  obtain rfl : total' = total := htotal
  obtain rfl : registry' = registry := Registry.ext_lookup htag fun t => h (.thread t)
  obtain rfl : locks' = locks := LockStore.ext fun lock => h (.lock lock)
  obtain rfl : shadow' = shadow := ShadowMemory.ext fun x => h (.location x)
  rfl

theorem Sound.id_ne_noThread (hd : d.Sound) {h : Handle} {s : ThreadState K}
    (hs : d.registry.lookup h = .ok s) : s.id ≠ noThread := by
  rw [hd.id_of_lookup h s hs]
  exact Registry.ne_noThread_of_state? (Registry.state?_of_lookup hs)

theorem Sound.handle_eq (hd : d.Sound) {h : Handle} {s : ThreadState K}
    (hs : d.registry.lookup h = .ok s) : h = ⟨d.registry.tag, s.id⟩ := by
  rw [hd.id_of_lookup h s hs, ← (Registry.lookup_eq_ok.mp hs).1]

/-! ### What an operation leaves alone -/

/-- A thread that an operation does not name stays as it is. -/
theorem Sound.lookup_step_of_not_mem (hd : d.Sound) (hstart : op ≠ .start) {h : Handle}
    (hh : h ∉ op.threads) : (d.step op).state.registry.lookup h = d.registry.lookup h := by
  have hput {t : Handle} {s s' : ThreadState K} (hs : d.registry.lookup t = .ok s)
      (hid : s'.id = s.id) (hne : h ≠ t) :
      (d.registry.put s').lookup h = d.registry.lookup h :=
    Registry.lookup_put_of_ne (hid ▸ hd.id_ne_noThread hs) (hid ▸ hd.handle_eq hs ▸ hne)
  cases op with
  | start => exact absurd rfl hstart
  | fork p c =>
    obtain ⟨hp, hc⟩ : h ≠ p ∧ h ≠ c := by simpa [Op.threads] using hh
    simp only [step, fork, Registry.fork, Reply.state_mapResult, Reply.state_mapState]
    rcases d.registry.lookupAlivePair_cases p c with ⟨e, -, hl⟩ | ⟨s, s', hs, hs', -, hl⟩
    · rw [hl, Reply.state_fail]
    · rw [hl]
      exact Registry.lookup_transfer_of_ne (hd.id_ne_noThread hs) (hd.id_ne_noThread hs')
        (hd.handle_eq hs ▸ hp) (hd.handle_eq hs' ▸ hc)
  | join p c =>
    obtain ⟨hp, hc⟩ : h ≠ p ∧ h ≠ c := by simpa [Op.threads] using hh
    simp only [step, join, Registry.join, Reply.state_mapResult, Reply.state_mapState]
    rcases d.registry.lookupPair_cases p c with ⟨e, -, hl⟩ | ⟨s, s', hs, hs', -, hl⟩
    · rw [hl, Reply.state_fail]
    · rw [hl]
      exact Registry.lookup_transfer_of_ne (hd.id_ne_noThread hs') (hd.id_ne_noThread hs)
        (hd.handle_eq hs' ▸ hc) (hd.handle_eq hs ▸ hp)
  | exit t =>
    have ht : h ≠ t := by simpa [Op.threads] using hh
    simp only [step, exit, Registry.exit, Reply.state_mapResult, Reply.state_mapState]
    rcases d.registry.lookupAlive_cases t with ⟨e, -, hl⟩ | ⟨s, hs, hl⟩
    · rw [hl, Reply.state_fail]
    · rw [hl]
      exact hput hs rfl ht
  | acquire lock t =>
    have ht : h ≠ t := by simpa [Op.threads] using hh
    simp only [step, acquire, Reply.state_mapResult]
    cases hs : d.registry.lookup t with
    | error e => rfl
    | ok s =>
      simp only [LockStore.acquire, Reply.state_mapState]
      cases s.ensureAlive with
      | error e => exact hput hs rfl ht
      | ok => exact hput hs rfl ht
  | release lock t =>
    have ht : h ≠ t := by simpa [Op.threads] using hh
    simp only [step, release, Reply.state_mapResult]
    cases hs : d.registry.lookup t with
    | error e => rfl
    | ok s =>
      simp only [LockStore.release, Reply.state_mapState]
      cases s.ensureAlive with
      | error e => exact hput hs rfl ht
      | ok =>
        cases htick : s.tick with
        | error f =>
          simp only [Reply.state_halt]
          exact hput hs rfl ht
        | ok s' => exact hput hs (ThreadState.id_of_tick htick) ht
  | access t a =>
    have ht : h ≠ t := by simpa [Op.threads] using hh
    simp only [step, access, Reply.state_mapResult]
    cases hs : d.registry.lookup t with
    | error e => rfl
    | ok s =>
      dsimp only
      cases s.ensureAlive with
      | error e => rfl
      | ok =>
        dsimp only
        cases hc : (d.shadow.getD a.address (.neutral a.address)).check d.config s a with
        | error f => rw [Reply.state_halt]
        | ok checked => exact hput hs (Entry.id_of_check hc) ht
  | forgetLock | init | forget => rfl

/-- A lock that an operation is not about keeps its clock. -/
theorem lockClock?_step_of_ne (d : Detector rule K) {lock : Address} (h : op.lock? ≠ some lock) :
    (d.step op).state.lockClock? lock = d.lockClock? lock := by
  cases op with
  | start | fork | join | exit | init | forget => rfl
  | acquire l t =>
    have hl : l ≠ lock := by simpa [Op.lock?] using h
    simp only [step, acquire, Reply.state_mapResult]
    cases d.registry.lookup t with
    | error e => rfl
    | ok s =>
      simp only [LockStore.acquire, Reply.state_mapState]
      cases s.ensureAlive <;> exact (LockStore.clock?_touch ..).trans (if_neg hl)
  | release l t =>
    have hl : l ≠ lock := by simpa [Op.lock?] using h
    simp only [step, release, Reply.state_mapResult]
    cases d.registry.lookup t with
    | error e => rfl
    | ok s =>
      simp only [LockStore.release, Reply.state_mapState]
      cases s.ensureAlive with
      | error e => exact (LockStore.clock?_touch ..).trans (if_neg hl)
      | ok =>
        have hpublish := (LockStore.clock?_publish d.locks l lock s.clock).trans (if_neg hl)
        cases s.tick with
        | error f =>
          simp only [Reply.state_halt]
          exact hpublish
        | ok s' => exact hpublish
  | forgetLock l =>
    have hl : l ≠ lock := by simpa [Op.lock?] using h
    exact (LockStore.clock?_forget ..).trans (if_neg hl)
  | access t a =>
    rcases d.access_cases t a with ⟨-, hspares⟩ | ⟨-, s, checked, hpass⟩
    · rw [lockClock?, hspares.locks_eq, lockClock?]
    · rw [lockClock?, hpass.locks_eq, lockClock?]

/-- A location that an operation is not about keeps its entry. -/
theorem entryAt?_step_of_ne (d : Detector rule K) {x : Address} (h : op.location? ≠ some x) :
    (d.step op).state.entryAt? x = d.entryAt? x := by
  cases op with
  | start | fork | join | exit | acquire | release | forgetLock =>
    rw [entryAt?, shadow_step rfl, entryAt?]
  | init y =>
    have hy : y ≠ x := by simpa [Op.location?] using h
    exact (ShadowMemory.get?_monitor ..).trans (if_neg hy)
  | forget y =>
    have hy : y ≠ x := by simpa [Op.location?] using h
    exact (ShadowMemory.get?_forget ..).trans (if_neg hy)
  | access t a =>
    have ha : a.address ≠ x := by simpa [Op.location?] using h
    have hmonitor : (d.shadow.monitor a.address (.neutral a.address)).get? x = d.shadow.get? x :=
      (ShadowMemory.get?_monitor ..).trans (if_neg ha)
    simp only [step, access, Reply.state_mapResult]
    cases d.registry.lookup t with
    | error e => rfl
    | ok s =>
      dsimp only
      cases s.ensureAlive with
      | error e => exact hmonitor
      | ok =>
        dsimp only
        cases (d.shadow.getD a.address (.neutral a.address)).check d.config s a with
        | error f =>
          rw [Reply.state_halt]
          exact hmonitor
        | ok checked => exact ((ShadowMemory.get?_put ..).trans (if_neg ha)).trans hmonitor

/-- An operation leaves all parts alone that it is not about. -/
theorem Sound.sameAt_step (hd : d.Sound) (hstart : op ≠ .start) {part : Part}
    (h : ¬op.Concerns part) : d.SameAt (d.step op).state part := by
  cases part with
  | thread t => exact hd.lookup_step_of_not_mem hstart h
  | lock lock => exact d.lockClock?_step_of_ne h
  | location x => exact d.entryAt?_step_of_ne h

/-! ### What an operation looks at -/

/-- An operation does the same to two detectors. -/
structure Mirrors (op : Op Handle) (d d' : Detector rule K) : Prop where
  result_eq : (d'.step op).result = (d.step op).result
  sameAt : ∀ part, d.SameAt d' part → (d.step op).state.SameAt (d'.step op).state part
  total_eq : (d'.step op).state.totalRaces + d.totalRaces =
    (d.step op).state.totalRaces + d'.totalRaces

/-- An operation that only works on the threads. -/
theorem mirrors_of_registry {reply reply' : Reply (Registry K) Unit}
    (hresult : reply'.result = reply.result)
    (hlookup : ∀ h, d'.registry.lookup h = d.registry.lookup h →
      reply'.state.lookup h = reply.state.lookup h)
    (hstep : d.step op =
      (reply.mapState fun registry => { d with registry }).mapResult fun () => .unit)
    (hstep' : d'.step op =
      (reply'.mapState fun registry => { d' with registry }).mapResult fun () => .unit) :
    Mirrors op d d' where
  result_eq := by
    rw [hstep, hstep', Reply.result_mapResult, Reply.result_mapState, hresult]
    rfl
  sameAt part h := by
    rw [hstep, hstep']
    cases part with
    | thread t => exact hlookup t h
    | lock | location => exact h
  total_eq := by
    rw [hstep, hstep']
    exact Nat.add_comm _ _

/-- An operation that works on a lock and a thread. -/
theorem mirrors_of_locks (reply reply' : Reply (LockStore K × ThreadState K) Unit)
    (hreply : reply.state.2.id ≠ noThread ∧ reply'.state.2 = reply.state.2 ∧
      reply'.result = reply.result ∧ ∀ l, d'.locks.clock? l = d.locks.clock? l →
        reply'.state.1.clock? l = reply.state.1.clock? l)
    (hstep : d.step op = (reply.mapState fun (locks, s) =>
      { d with locks, registry := d.registry.put s }).mapResult fun () => .unit)
    (hstep' : d'.step op = (reply'.mapState fun (locks, s) =>
      { d' with locks, registry := d'.registry.put s }).mapResult fun () => .unit) :
    Mirrors op d d' where
  result_eq := by
    rw [hstep, hstep', Reply.result_mapResult, Reply.result_mapState, hreply.2.2.1]
    rfl
  sameAt part h := by
    rw [hstep, hstep']
    cases part with
    | thread t =>
      simp only [SameAt, Reply.state_mapResult, Reply.state_mapState, hreply.2.1]
      exact Registry.lookup_put_congr hreply.1 h
    | lock lock => exact hreply.2.2.2 lock h
    | location => exact h
  total_eq := by
    rw [hstep, hstep']
    exact Nat.add_comm _ _

/-- An operation that is refused at once. -/
theorem mirrors_of_fail {e : Error} (hstep : d.step op = .fail d e [])
    (hstep' : d'.step op = .fail d' e []) : Mirrors op d d' where
  result_eq := by rw [hstep, hstep', Reply.result_fail, Reply.result_fail]
  sameAt part h := by rwa [hstep, hstep', Reply.state_fail, Reply.state_fail]
  total_eq := by rw [hstep, hstep', Reply.state_fail, Reply.state_fail, Nat.add_comm]

/-- An operation that works on a location and a thread. -/
theorem mirrors_of_shadow {registry registry' : Registry K} {shadow shadow' : ShadowMemory _}
    (counted : Nat) (hresult : (d'.step op).result = (d.step op).result)
    (hstate : (d.step op).state =
      { d with registry, shadow, totalRaces := d.totalRaces + counted })
    (hstate' : (d'.step op).state = { d' with
      registry := registry'
      shadow := shadow'
      totalRaces := d'.totalRaces + counted })
    (hlookup : ∀ h, d'.registry.lookup h = d.registry.lookup h →
      registry'.lookup h = registry.lookup h)
    (hentry : ∀ x, d'.shadow.get? x = d.shadow.get? x → shadow'.get? x = shadow.get? x) :
    Mirrors op d d' where
  result_eq := hresult
  sameAt part h := by
    rw [hstate, hstate']
    cases part with
    | thread t => exact hlookup t h
    | lock => exact h
    | location x => exact hentry x h
  total_eq := by
    rw [hstate, hstate']
    dsimp only
    omega

theorem Sound.mirrors_acquire (hd : d.Sound) {lock : Address} {t : Handle}
    (ht : d'.registry.lookup t = d.registry.lookup t)
    (hlock : d'.locks.clock? lock = d.locks.clock? lock) : Mirrors (.acquire lock t) d d' := by
  cases hs : d.registry.lookup t with
  | error e =>
    rw [hs] at ht
    exact mirrors_of_fail (by simp only [step, acquire, hs]; rfl)
      (by simp only [step, acquire, ht]; rfl)
  | ok s =>
    rw [hs] at ht
    refine mirrors_of_locks (d.locks.acquire lock s) (d'.locks.acquire lock s) ?_
      (by simp only [step, acquire, hs]) (by simp only [step, acquire, ht])
    have hid := hd.id_ne_noThread hs
    have htouch (l : Address) (hl : d'.locks.clock? l = d.locks.clock? l) :
        (d'.locks.touch lock).clock? l = (d.locks.touch lock).clock? l := by
      rw [LockStore.clock?_touch, LockStore.clock?_touch, hlock, hl]
    simp only [LockStore.acquire, hlock]
    cases s.ensureAlive <;> exact ⟨hid, rfl, rfl, htouch⟩

theorem Sound.mirrors_release (hd : d.Sound) {lock : Address} {t : Handle}
    (ht : d'.registry.lookup t = d.registry.lookup t)
    (hlock : d'.locks.clock? lock = d.locks.clock? lock) : Mirrors (.release lock t) d d' := by
  cases hs : d.registry.lookup t with
  | error e =>
    rw [hs] at ht
    exact mirrors_of_fail (by simp only [step, release, hs]; rfl)
      (by simp only [step, release, ht]; rfl)
  | ok s =>
    rw [hs] at ht
    refine mirrors_of_locks (d.locks.release lock s) (d'.locks.release lock s) ?_
      (by simp only [step, release, hs]) (by simp only [step, release, ht])
    have hid := hd.id_ne_noThread hs
    have hpublish (l : Address) (hl : d'.locks.clock? l = d.locks.clock? l) :
        (d'.locks.publish lock s.clock).clock? l = (d.locks.publish lock s.clock).clock? l := by
      rw [LockStore.clock?_publish, LockStore.clock?_publish, hl]
    simp only [LockStore.release]
    cases s.ensureAlive with
    | error e =>
      exact ⟨hid, rfl, rfl, fun l hl => by
        rw [Reply.state_fail, Reply.state_fail, LockStore.clock?_touch, LockStore.clock?_touch,
          hlock, hl]⟩
    | ok =>
      cases htick : s.tick with
      | error f =>
        simp only [Reply.state_halt, Reply.result_halt]
        exact ⟨hid, trivial, trivial, hpublish⟩
      | ok s' => exact ⟨ThreadState.id_of_tick htick ▸ hid, rfl, rfl, hpublish⟩

theorem Sound.mirrors_access (hd : d.Sound) {t : Handle} {a : Access}
    (hconfig : d'.config = d.config) (ht : d'.registry.lookup t = d.registry.lookup t)
    (hx : d'.shadow.get? a.address = d.shadow.get? a.address) : Mirrors (.access t a) d d' := by
  have hentry : d'.shadow.getD a.address (.neutral a.address) =
      d.shadow.getD a.address (.neutral a.address) := by
    rw [ShadowMemory.getD, ShadowMemory.getD, hx]
  have hmonitor (x : Address) (h : d'.shadow.get? x = d.shadow.get? x) :
      (d'.shadow.monitor a.address (.neutral a.address)).get? x =
        (d.shadow.monitor a.address (.neutral a.address)).get? x := by
    rw [ShadowMemory.get?_monitor, ShadowMemory.get?_monitor, hentry, h]
  cases hs : d.registry.lookup t with
  | error e =>
    rw [hs] at ht
    exact mirrors_of_fail (by simp only [step, access, hs]; rfl)
      (by simp only [step, access, ht]; rfl)
  | ok s =>
    rw [hs] at ht
    cases ha : s.ensureAlive with
    | error e =>
      exact mirrors_of_shadow 0 (by simp only [step, access, hs, ht, ha]; rfl)
        (by simp only [step, access, hs, ha]; rfl) (by simp only [step, access, ht, ha]; rfl)
        (fun h hh => hh) hmonitor
    | ok =>
      cases hc : (d.shadow.getD a.address (.neutral a.address)).check d.config s a with
      | error f =>
        refine mirrors_of_shadow 0 ?_ ?_ ?_ (fun h hh => hh) hmonitor
        · simp only [step, access, hs, ht, ha, hconfig, hentry, hc, Reply.result_mapResult,
            Reply.result_halt]
        · simp only [step, access, hs, ha, hc, Reply.state_mapResult, Reply.state_halt]
          rfl
        · simp only [step, access, ht, ha, hconfig, hentry, hc, Reply.state_mapResult,
            Reply.state_halt]
          rfl
      | ok checked =>
        have hid : checked.thread.id ≠ noThread := Entry.id_of_check hc ▸ hd.id_ne_noThread hs
        have hput (x : Address) (h : d'.shadow.get? x = d.shadow.get? x) :
            ((d'.shadow.monitor a.address (.neutral a.address)).put a.address
                checked.entry).get? x =
              ((d.shadow.monitor a.address (.neutral a.address)).put a.address
                checked.entry).get? x := by
          rw [ShadowMemory.get?_put, ShadowMemory.get?_put, hmonitor x h]
        exact mirrors_of_shadow checked.counted
          (by simp only [step, access, hs, ht, ha, hconfig, hentry, hc]; rfl)
          (by simp only [step, access, hs, ha, hc]; rfl)
          (by simp only [step, access, ht, ha, hconfig, hentry, hc]; rfl)
          (fun h hh => Registry.lookup_put_congr hid hh) hput

/-- What an operation does depends on nothing but the options and the parts it is about. -/
theorem Sound.mirrors (hd : d.Sound) (hstart : op ≠ .start) (hconfig : d'.config = d.config)
    (hagree : ∀ part, op.Concerns part → d.SameAt d' part) : Mirrors op d d' := by
  have hids (t : Handle) (s : ThreadState K) (hs : d.registry.lookup t = .ok s) :
      s.id ≠ noThread := hd.id_ne_noThread hs
  have hthread (t : Handle) (ht : t ∈ op.threads) :
      d'.registry.lookup t = d.registry.lookup t := hagree (.thread t) ht
  cases op with
  | start => exact absurd rfl hstart
  | fork p c =>
    obtain ⟨hresult, hlookup⟩ :=
      Registry.fork_congr (hthread p (by simp [Op.threads])) (hthread c (by simp [Op.threads])) hids
    exact mirrors_of_registry hresult hlookup rfl rfl
  | join p c =>
    obtain ⟨hresult, hlookup⟩ :=
      Registry.join_congr (hthread p (by simp [Op.threads])) (hthread c (by simp [Op.threads])) hids
    exact mirrors_of_registry hresult hlookup rfl rfl
  | exit t =>
    obtain ⟨hresult, hlookup⟩ := Registry.exit_congr (hthread t (by simp [Op.threads])) hids
    exact mirrors_of_registry hresult hlookup rfl rfl
  | acquire lock t =>
    exact hd.mirrors_acquire (hthread t (by simp [Op.threads])) (hagree (.lock lock) rfl)
  | release lock t =>
    exact hd.mirrors_release (hthread t (by simp [Op.threads])) (hagree (.lock lock) rfl)
  | access t a =>
    exact hd.mirrors_access hconfig (hthread t (by simp [Op.threads]))
      (hagree (.location a.address) rfl)
  | forgetLock lock =>
    have hlock : d'.locks.clock? lock = d.locks.clock? lock := hagree (.lock lock) rfl
    refine ⟨?_, fun part h => ?_, Nat.add_comm _ _⟩
    · simp only [step, forgetLock, Reply.result_mapResult, Reply.result_mapState,
        LockStore.result_forget, hlock]
    · cases part with
      | lock l =>
        have hl : d'.locks.clock? l = d.locks.clock? l := h
        exact (LockStore.clock?_forget ..).trans
          (((LockStore.clock?_forget ..).trans (by rw [hl])).symm)
      | thread | location => exact h
  | init x =>
    have hx : d'.shadow.get? x = d.shadow.get? x := hagree (.location x) rfl
    refine mirrors_of_shadow 0 ?_ rfl rfl (fun h hh => hh) fun y hy => ?_
    · simp only [step, init, Reply.result_mapResult, Reply.result_mapState,
        ShadowMemory.result_init, hx]
    · simp only [ShadowMemory.init, Reply.state_done, ShadowMemory.get?_monitor,
        ShadowMemory.getD, hx, hy]
  | forget x =>
    have hx : d'.shadow.get? x = d.shadow.get? x := hagree (.location x) rfl
    refine mirrors_of_shadow 0 ?_ rfl rfl (fun h hh => hh) fun y hy => ?_
    · simp only [step, forget, Reply.result_mapResult, Reply.result_mapState,
        ShadowMemory.result_forget, hx]
    · rw [ShadowMemory.get?_forget, ShadowMemory.get?_forget, hy]

end Detector

end RaceWatch
