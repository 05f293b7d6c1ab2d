import RaceWatch.Proofs.Agreement

/-!
Two detectors side by side that are told of the same operations. What becomes of their
threads and locks depends on nothing but the threads and the locks themselves and on how
the handles look to each of them. The options and the entries of locations have no part in
it, except where an access takes its thread into a new event.
-/

namespace RaceWatch

/-- The same value where all handles are handed out under a tag. -/
def Value.under (tag : Nat) : Value → Value
  | .handle h => .handle { h with owner := tag }
  | .unit => .unit
  | .flag b => .flag b
  | .number n => .number n

/-- Where a handle is handed back, it is handed back under the tag. -/
theorem Value.map_under_handle {ε : Type} (tag : Nat) (x : Except ε Handle) :
    (x.map Value.handle).map (Value.under tag) =
      (x.map fun h => { h with owner := tag }).map Value.handle := by
  cases x <;> rfl

theorem Value.map_under_unit {ε : Type} (tag : Nat) (x : Except ε Unit) :
    (x.map fun () => Value.unit).map (Value.under tag) = x.map fun () => Value.unit := by
  cases x <;> rfl

/-- The location that an operation is about. -/
def Op.location? {ρ : Type} : Op ρ → Option Address
  | .access _ a => some a.address
  | .init x | .forget x => some x
  | .start | .fork .. | .join .. | .exit _ | .acquire .. | .release .. | .forgetLock _ => none

theorem Op.location?_map {ρ ρ' : Type} (f : ρ → ρ') (op : Op ρ) :
    (op.map f).location? = op.location? := by
  cases op <;> rfl

/-! ### The same threads under another tag -/

namespace Registry

variable {K : Nat} {r : Registry K} {tag : Nat} {a b a' b' : Handle}

/-- The registry of the same threads under another tag. -/
def retag (tag : Nat) (r : Registry K) : Registry K := { r with tag }

@[simp] theorem put_retag (r : Registry K) (s : ThreadState K) :
    (r.retag tag).put s = (r.put s).retag tag := rfl

theorem lookup_retag (ha : a.seenBy r.tag = a'.seenBy tag) :
    (r.retag tag).lookup a' = r.lookup a := by
  obtain ⟨howner, hthread⟩ := Prod.mk.inj ha
  have hiff : a.owner = r.tag ↔ a'.owner = tag := by
    rw [← beq_iff_eq (a := a.owner), howner, beq_iff_eq]
  simp only [lookup, retag, state?, hthread, hiff]
  rfl

theorem lookupPair_retag (ha : a.seenBy r.tag = a'.seenBy tag)
    (hb : b.seenBy r.tag = b'.seenBy tag) :
    (r.retag tag).lookupPair a' b' = r.lookupPair a b := by
  have hthread : a.thread = a'.thread := (Prod.mk.inj ha).2
  have hthread' : b.thread = b'.thread := (Prod.mk.inj hb).2
  simp only [lookupPair, lookup_retag ha, lookup_retag hb, hthread, hthread']

theorem transfer_retag (r : Registry K) (giver receiver : ThreadState K) (note : Epoch → Note) :
    (r.retag tag).transfer giver receiver note =
      (r.transfer giver receiver note).mapState (·.retag tag) := by
  simp only [transfer, put_retag]
  cases giver.tick with
  | ok s => rfl
  | error f => cases f <;> rfl

theorem register_retag (r : Registry K) (tag : Nat) :
    (r.retag tag).register =
      (r.register.mapState (·.retag tag)).mapResult fun h => { h with owner := tag } := by
  have hsize : (r.retag tag).size = r.size := rfl
  simp only [register, hsize]
  cases checkCapacity K with
  | error e => rfl
  | ok =>
    dsimp only
    split
    · rfl
    · cases (ThreadState.fresh (ownerOf r.size) : Except _ (ThreadState K)) with
      | ok s => rfl
      | error f => cases f <;> rfl

theorem fork_retag (ha : a.seenBy r.tag = a'.seenBy tag) (hb : b.seenBy r.tag = b'.seenBy tag) :
    (r.retag tag).fork a' b' = (r.fork a b).mapState (·.retag tag) := by
  simp only [fork, lookupAlivePair, lookupPair_retag ha hb]
  split
  · rfl
  · exact transfer_retag r _ _ _

theorem join_retag (ha : a.seenBy r.tag = a'.seenBy tag) (hb : b.seenBy r.tag = b'.seenBy tag) :
    (r.retag tag).join a' b' = (r.join a b).mapState (·.retag tag) := by
  simp only [join, lookupPair_retag ha hb]
  split
  · rfl
  · exact transfer_retag r _ _ _

theorem exit_retag (ha : a.seenBy r.tag = a'.seenBy tag) :
    (r.retag tag).exit a' = (r.exit a).mapState (·.retag tag) := by
  simp only [exit, lookupAlive, lookup_retag ha]
  split <;> rfl

end Registry

/-! ### Side by side -/

namespace Detector

variable {rule : Rule} {K : Nat} {d d' : Detector rule K} {tag : Nat} {op op' : Op Handle}

theorem tag_step (d : Detector rule K) (op : Op Handle) :
    (d.step op).state.registry.tag = d.registry.tag := by
  cases op with
  | start =>
    simp only [step, start, Registry.register, Reply.state_mapResult, Reply.state_mapState]
    repeat' split
    all_goals simp
  | fork | join | exit =>
    simp only [step, fork, join, exit, Registry.fork, Registry.join, Registry.exit,
      Registry.transfer, Reply.state_mapResult, Reply.state_mapState]
    repeat' split
    all_goals simp
  | acquire | release =>
    simp only [step, acquire, release, Reply.state_mapResult]
    split <;> rfl
  | access =>
    simp only [step, access, Reply.state_mapResult]
    repeat' split
    all_goals simp
  | forgetLock | init | forget => rfl

/-- No thread is lost. -/
theorem size_le_size_step (d : Detector rule K) (op : Op Handle) :
    d.registry.size ≤ (d.step op).state.registry.size := by
  cases op with
  | start =>
    simp only [step, start, Registry.register, Reply.state_mapResult, Reply.state_mapState]
    repeat' split
    all_goals simp [Registry.size]
  | fork | join | exit =>
    simp only [step, fork, join, exit, Registry.fork, Registry.join, Registry.exit,
      Registry.transfer, Reply.state_mapResult, Reply.state_mapState]
    repeat' split
    all_goals simp
  | acquire | release =>
    simp only [step, acquire, release, Reply.state_mapResult]
    split
    all_goals simp
  | access =>
    simp only [step, access, Reply.state_mapResult]
    repeat' split
    all_goals simp
  | forgetLock | init | forget => exact Nat.le_refl _

/-- Only an operation that is about a location changes what is kept of the locations. -/
theorem shadow_step (h : op.location? = none) : (d.step op).state.shadow = d.shadow := by
  cases op with
  | start | fork | join | exit | forgetLock => rfl
  | acquire | release =>
    simp only [step, acquire, release, Reply.state_mapResult]
    split <;> rfl
  | access | init | forget => simp [Op.location?] at h

/-- Two detectors with the same threads and the same locks, of which the second one has a
tag of its own. -/
structure Beside (tag : Nat) (d d' : Detector rule K) : Prop where
  registry_eq : d'.registry = d.registry.retag tag
  locks_eq : d'.locks = d.locks

theorem Beside.state?_eq (h : Beside tag d d') (t : Nat) : d'.state? t = d.state? t := by
  rw [state?, h.registry_eq]
  rfl

theorem Beside.lockClock?_eq (h : Beside tag d d') (lock : Address) :
    d'.lockClock? lock = d.lockClock? lock := by
  rw [lockClock?, h.locks_eq, lockClock?]

theorem Beside.lookup_eq (h : Beside tag d d') {a a' : Handle}
    (ha : a.seenBy d.registry.tag = a'.seenBy tag) :
    d'.registry.lookup a' = d.registry.lookup a := by
  rw [h.registry_eq, Registry.lookup_retag ha]

/-- An operation that only works on the threads. -/
theorem Beside.of_registry (h : Beside tag d d') {reply reply' : Reply (Registry K) Unit}
    (hreply : reply' = reply.mapState (·.retag tag)) :
    Beside tag { d with registry := reply.state } { d' with registry := reply'.state } ∧
      (reply'.result.map fun () => Value.unit) =
        (reply.result.map fun () => Value.unit).map (Value.under tag) := by
  subst hreply
  exact ⟨⟨rfl, h.locks_eq⟩, (Value.map_under_unit tag _).symm⟩

/-- An operation that works on a lock and a thread. -/
theorem Beside.of_locks (h : Beside tag d d') (reply : Reply (LockStore K × ThreadState K) Unit) :
    Beside tag { d with locks := reply.state.1, registry := d.registry.put reply.state.2 }
        { d' with locks := reply.state.1, registry := d'.registry.put reply.state.2 } ∧
      (reply.result.map fun () => Value.unit) =
        (reply.result.map fun () => Value.unit).map (Value.under tag) := by
  refine ⟨⟨?_, rfl⟩, (Value.map_under_unit tag _).symm⟩
  rw [h.registry_eq, Registry.put_retag]

/-- An operation that is not an access does the same to the threads and the locks of both
detectors. Unless it is about a location it also hands back the same. -/
theorem Beside.step (h : Beside tag d d')
    (hop : op.map (·.seenBy d.registry.tag) = op'.map (·.seenBy tag))
    (hne : ∀ t a, op ≠ .access t a) :
    Beside tag (d.step op).state (d'.step op').state ∧
      (op.location? = none →
        (d'.step op').result = (d.step op).result.map (Value.under tag)) := by
  cases op <;> cases op' <;> simp only [Op.map, reduceCtorEq, Op.fork.injEq, Op.join.injEq,
    Op.exit.injEq, Op.acquire.injEq, Op.release.injEq, Op.forgetLock.injEq] at hop
  case start.start =>
    have hreply := d.registry.register_retag tag
    rw [← h.registry_eq] at hreply
    simp only [Detector.step, start, hreply, Reply.state_mapResult, Reply.state_mapState,
      Reply.result_mapResult, Reply.result_mapState]
    exact ⟨⟨rfl, h.locks_eq⟩, fun _ => (Value.map_under_handle tag _).symm⟩
  case fork.fork p c p' c' =>
    have hreply := Registry.fork_retag hop.1 hop.2
    rw [← h.registry_eq] at hreply
    exact (h.of_registry hreply).imp_right fun hresult _ => hresult
  case join.join p c p' c' =>
    have hreply := Registry.join_retag hop.1 hop.2
    rw [← h.registry_eq] at hreply
    exact (h.of_registry hreply).imp_right fun hresult _ => hresult
  case exit.exit t t' =>
    have hreply := Registry.exit_retag hop
    rw [← h.registry_eq] at hreply
    exact (h.of_registry hreply).imp_right fun hresult _ => hresult
  case acquire.acquire lock t lock' t' =>
    obtain ⟨rfl, ht⟩ := hop
    simp only [Detector.step, acquire, h.lookup_eq ht, h.locks_eq]
    cases d.registry.lookup t with
    | error e => exact ⟨h, fun _ => rfl⟩
    | ok s => exact (h.of_locks _).imp_right fun hresult _ => hresult
  case release.release lock t lock' t' =>
    obtain ⟨rfl, ht⟩ := hop
    simp only [Detector.step, release, h.lookup_eq ht, h.locks_eq]
    cases d.registry.lookup t with
    | error e => exact ⟨h, fun _ => rfl⟩
    | ok s => exact (h.of_locks _).imp_right fun hresult _ => hresult
  case forgetLock.forgetLock lock lock' =>
    subst hop
    simp only [Detector.step, forgetLock, h.locks_eq]
    exact ⟨⟨h.registry_eq, rfl⟩, fun _ => rfl⟩
  case access.access t a t' a' => exact absurd rfl (hne t a)
  case init.init | forget.forget =>
    exact ⟨⟨h.registry_eq, h.locks_eq⟩, fun hnone => by simp [Op.location?] at hnone⟩

end Detector

end RaceWatch
