import RaceWatch.Proofs.Flagged
import RaceWatch.Proofs.Lockstep

/-!
A detector whose entries exist apart from the addresses that they belong to, each behind a lock
of its own. An access holds the lock of its entry for longer than the check takes, and in the
meantime the address may be forgotten and get another entry. So an entry has a number, which it
keeps, and what a detector knows of a location is the entry whose number its address has.
-/

namespace RaceWatch

/-! ### Locks -/

/-- What a lock hands out that protects a value. If the lock is poisoned, because whoever held it
last panicked, the value comes as an error. -/
def lockedValue {ε : Type} (poisoned : Bool) (value : ε) : Except ε ε :=
  if poisoned then .error value else .ok value

/-- Take what a lock hands out, whether it is poisoned or not. -/
def recovered {ε : Type} : Except ε ε → ε
  | .ok value | .error value => value

@[simp] theorem recovered_lockedValue {ε : Type} (poisoned : Bool) (value : ε) :
    recovered (lockedValue poisoned value) = value := by
  cases poisoned <;> rfl

/-! ### Entries by number -/

/-- The entries that have come to be, and which of them each address has. -/
structure EntryPool (ε : Type) where
  /-- The number of the entry of each monitored address. -/
  numbers : ShadowMemory Nat
  /-- All entries, those of forgotten addresses included. -/
  entries : List ε

namespace EntryPool

variable {ε : Type} {p : EntryPool ε} {a b : Address} {n : Nat}

def empty : EntryPool ε := ⟨.empty, []⟩

/-- The number of the entry that an address has, or gets once it is monitored. -/
def numberOf (p : EntryPool ε) (address : Address) : Nat :=
  p.numbers.getD address p.entries.length

/-- Monitor an address. One that is monitored already keeps its entry. -/
def monitor (p : EntryPool ε) (address : Address) (neutral : ε) : EntryPool ε :=
  if p.numbers.entries.contains address then p
  else ⟨p.numbers.put address p.entries.length, p.entries ++ [neutral]⟩

/-- Stop monitoring an address. Its entry stays for those who hold it. -/
def forget (p : EntryPool ε) (address : Address) : EntryPool ε :=
  { p with numbers := (p.numbers.forget address).state }

def put (p : EntryPool ε) (n : Nat) (entry : ε) : EntryPool ε :=
  { p with entries := p.entries.set n entry }

/-- The entry of each address. -/
def view (p : EntryPool ε) : ShadowMemory ε :=
  ⟨p.numbers.entries.filterMap fun _ n => p.entries[n]?⟩

/-- Each number is that of an entry, and no two addresses have the same one. -/
structure Sound (p : EntryPool ε) : Prop where
  lt_length : ∀ a n, p.numbers.get? a = some n → n < p.entries.length
  inj : ∀ a b n, p.numbers.get? a = some n → p.numbers.get? b = some n → a = b

theorem sound_empty : (empty : EntryPool ε).Sound :=
  ⟨fun a n h => by simp [empty] at h, fun a b n h => by simp [empty] at h⟩

theorem get?_view (p : EntryPool ε) (a : Address) :
    p.view.get? a = (p.numbers.get? a).bind (p.entries[·]?) := by
  simp [view, ShadowMemory.get?, Std.ExtTreeMap.getElem?_filterMap]

theorem view_empty : (empty : EntryPool ε).view = .empty := by
  ext a : 1
  simp [get?_view, empty]

theorem Sound.isSome_view (h : p.Sound) (a : Address) :
    (p.view.get? a).isSome = (p.numbers.get? a).isSome := by
  rw [get?_view]
  cases hn : p.numbers.get? a with
  | none => rfl
  | some n => simp [h.lt_length a n hn]

theorem Sound.contains_view (h : p.Sound) (a : Address) :
    p.view.entries.contains a = p.numbers.entries.contains a := by
  rw [Std.ExtTreeMap.contains_eq_isSome_getElem?, Std.ExtTreeMap.contains_eq_isSome_getElem?]
  exact h.isSome_view a

theorem Sound.noteIfNew_view (h : p.Sound) (a : Address) (note : Note) :
    p.view.noteIfNew a note = p.numbers.noteIfNew a note := by
  rw [ShadowMemory.noteIfNew, ShadowMemory.noteIfNew, h.contains_view]

theorem getD_view (p : EntryPool ε) (a : Address) (neutral : ε) :
    p.view.getD a neutral = p.entries.getD (p.numberOf a) neutral := by
  rw [ShadowMemory.getD, get?_view, numberOf, ShadowMemory.getD]
  cases p.numbers.get? a <;> simp

theorem monitor_of_some (h : p.numbers.get? a = some n) (neutral : ε) :
    p.monitor a neutral = p := by
  refine if_pos ?_
  rw [Std.ExtTreeMap.contains_eq_isSome_getElem?]
  exact Option.isSome_of_eq_some h

theorem monitor_of_none (h : p.numbers.get? a = none) (neutral : ε) :
    p.monitor a neutral = ⟨p.numbers.put a p.entries.length, p.entries ++ [neutral]⟩ := by
  refine if_neg ?_
  rw [Std.ExtTreeMap.contains_eq_isSome_getElem?, show p.numbers.entries[a]? = none from h]
  exact Bool.false_ne_true

theorem get?_numbers_monitor (p : EntryPool ε) (a : Address) (neutral : ε) :
    (p.monitor a neutral).numbers.get? a = some (p.numberOf a) := by
  cases hn : p.numbers.get? a with
  | none =>
    rw [monitor_of_none hn, ShadowMemory.get?_put, if_pos rfl, numberOf, ShadowMemory.getD, hn]
    rfl
  | some n =>
    rw [monitor_of_some hn, hn, numberOf, ShadowMemory.getD, hn]
    rfl

theorem Sound.monitor (h : p.Sound) (a : Address) (neutral : ε) : (p.monitor a neutral).Sound := by
  cases hn : p.numbers.get? a with
  | some n => rwa [monitor_of_some hn]
  | none =>
    rw [monitor_of_none hn]
    have hcases (b n) (hb : (p.numbers.put a p.entries.length).get? b = some n) :
        (a = b ∧ n = p.entries.length) ∨ (a ≠ b ∧ p.numbers.get? b = some n) := by
      rw [ShadowMemory.get?_put] at hb
      split at hb
      · next hab => exact .inl ⟨hab, (Option.some.inj hb).symm⟩
      · next hab => exact .inr ⟨hab, hb⟩
    refine ⟨fun b n hb => ?_, fun b c n hb hc => ?_⟩
    · rw [List.length_append]
      rcases hcases b n hb with ⟨-, rfl⟩ | ⟨-, hb⟩
      · exact Nat.lt_succ_self _
      · exact Nat.lt_succ_of_lt (h.lt_length b n hb)
    · rcases hcases b n hb with ⟨hab, rfl⟩ | ⟨-, hb⟩ <;>
        rcases hcases c _ hc with ⟨hac, hn⟩ | ⟨-, hc⟩
      · exact hab.symm.trans hac
      · exact absurd (h.lt_length c _ hc) (Nat.lt_irrefl _)
      · exact absurd (hn ▸ h.lt_length b _ hb) (Nat.lt_irrefl _)
      · exact h.inj b c n hb hc

theorem Sound.view_monitor (h : p.Sound) (a : Address) (neutral : ε) :
    (p.monitor a neutral).view = p.view.monitor a neutral := by
  ext b : 1
  rw [ShadowMemory.get?_monitor, get?_view, get?_view, getD_view]
  by_cases hab : a = b
  · subst hab
    rw [get?_numbers_monitor, if_pos rfl]
    cases hn : p.numbers.get? a with
    | none =>
      rw [monitor_of_none hn, numberOf, ShadowMemory.getD, hn]
      simp
    | some n =>
      rw [monitor_of_some hn, numberOf, ShadowMemory.getD, hn]
      simp [h.lt_length a n hn]
  · rw [if_neg hab]
    cases hn : p.numbers.get? a with
    | some n => rw [monitor_of_some hn]
    | none =>
      rw [monitor_of_none hn, ShadowMemory.get?_put, if_neg hab]
      cases hb : p.numbers.get? b with
      | none => rfl
      | some m => simp [List.getElem?_append_left (h.lt_length b m hb)]

theorem Sound.forget (h : p.Sound) (a : Address) : (p.forget a).Sound := by
  have hkept (b n) (hb : (p.numbers.forget a).state.get? b = some n) :
      p.numbers.get? b = some n := by
    rw [ShadowMemory.get?_forget, Option.ite_none_left_eq_some] at hb
    exact hb.2
  exact ⟨fun b n hb => h.lt_length b n (hkept b n hb),
    fun b c n hb hc => h.inj b c n (hkept b n hb) (hkept c n hc)⟩

theorem view_forget (p : EntryPool ε) (a : Address) :
    (p.forget a).view = (p.view.forget a).state := by
  ext b : 1
  rw [get?_view, forget, ShadowMemory.get?_forget, ShadowMemory.get?_forget, get?_view]
  split <;> rfl

theorem Sound.put (h : p.Sound) (n : Nat) (entry : ε) : (p.put n entry).Sound := by
  refine ⟨fun a m hm => ?_, h.inj⟩
  rw [EntryPool.put, List.length_set]
  exact h.lt_length a m hm

/-- To change an entry changes what is kept of the address that has it. -/
theorem Sound.view_put (h : p.Sound) (hn : p.numbers.get? a = some n) (entry : ε) :
    (p.put n entry).view = p.view.put a entry := by
  ext b : 1
  rw [ShadowMemory.get?_put, get?_view, get?_view, EntryPool.put]
  by_cases hab : a = b
  · subst hab
    rw [if_pos rfl, hn, Option.bind_some, List.getElem?_set_self (h.lt_length a n hn)]
  · rw [if_neg hab]
    cases hb : p.numbers.get? b with
    | none => rfl
    | some m =>
      have hne : n ≠ m := fun hnm => hab (h.inj a b n hn (hnm ▸ hb))
      rw [Option.bind_some, Option.bind_some, List.getElem?_set_ne hne]

end EntryPool

/-! ### The detector -/

/-- A detector with its entries in a pool. -/
structure PooledDetector (rule : Rule) (K : Nat) where
  config : Config
  registry : Registry K
  locks : LockStore K
  pool : EntryPool (Entry rule K)
  totalRaces : Nat

namespace PooledDetector

variable {rule : Rule} {K : Nat} {g : PooledDetector rule K} {t : Handle} {a : Access}

/-- The detector with the entry of each address where it is asked for. -/
def view (g : PooledDetector rule K) : Detector rule K :=
  ⟨g.config, g.registry, g.locks, g.pool.view, g.totalRaces⟩

/-- A detector that monitors nothing yet. -/
def ofNew (d : Detector rule K) : PooledDetector rule K :=
  ⟨d.config, d.registry, d.locks, .empty, d.totalRaces⟩

/-- The number of the entry that an access has to lock, if its thread is one of the
detector's. -/
def needed? (g : PooledDetector rule K) (t : Handle) (a : Access) : Option Nat :=
  match g.registry.lookup t with
  | .error _ => none
  | .ok _ => some (g.pool.numberOf a.address)

/-- Check an access under the lock of its entry. If the check passes, the lock stays held, and the
number of the entry is handed back. -/
def access (g : PooledDetector rule K) (poisoned : Nat → Bool) (t : Handle) (a : Access) :
    Reply (PooledDetector rule K) Nat :=
  match g.registry.lookup t with
  | .error e => .fail g e []
  | .ok s =>
      let n := g.pool.numberOf a.address
      let entry := g.pool.entries.getD n (.neutral a.address)
      let notes := g.pool.numbers.noteIfNew a.address (.monitoredOnAccess a.address)
      let g := { g with pool := g.pool.monitor a.address (.neutral a.address) }
      match s.ensureAlive with
      | .error e => .fail g e notes
      | .ok () => match (recovered (lockedValue (poisoned n) entry)).check g.config s a with
        | .error f => .halt g notes f
        | .ok checked =>
            .done
              { g with
                registry := g.registry.put checked.thread
                pool := g.pool.put n checked.entry
                totalRaces := g.totalRaces + checked.counted }
              n (notes ++ checked.notes)

/-- Tell the detector of an operation that is no access. No such operation locks an entry. -/
def tell (g : PooledDetector rule K) (op : Op Handle) : Reply (PooledDetector rule K) Value :=
  (g.view.step op).mapState fun d =>
    { g with
      registry := d.registry
      locks := d.locks
      pool := match op with
        | .init address => g.pool.monitor address (.neutral address)
        | .forget address => g.pool.forget address
        | _ => g.pool }

theorem access_congr (g : PooledDetector rule K) (poisoned poisoned' : Nat → Bool) (t : Handle)
    (a : Access) : g.access poisoned t a = g.access poisoned' t a := by
  simp only [access, recovered_lockedValue]

/-- A check that passes has locked the entry that the access needs. -/
theorem needed?_of_result {n : Nat} {poisoned : Nat → Bool}
    (h : (g.access poisoned t a).result = .ok n) : g.needed? t a = some n := by
  rw [access] at h
  rw [needed?]
  cases hl : g.registry.lookup t with
  | error e => simp [hl] at h
  | ok s =>
    simp only [hl, recovered_lockedValue] at h
    split at h
    · simp at h
    · split at h
      · simp at h
      · exact congrArg some (Except.ok.inj h)

/-- An access to a pooled entry does what it does to the entry of the address. -/
theorem view_access (h : g.pool.Sound) (poisoned : Nat → Bool) (t : Handle) (a : Access) :
    ((g.access poisoned t a).mapState view).mapResult (fun _ => ()) = g.view.access t a := by
  simp only [access, Detector.access, view, recovered_lockedValue, h.noteIfNew_view,
    EntryPool.getD_view]
  cases g.registry.lookup t with
  | error e => rfl
  | ok s =>
    dsimp only
    rw [← h.view_monitor]
    cases s.ensureAlive with
    | error e => rfl
    | ok =>
      dsimp only
      cases (g.pool.entries.getD (g.pool.numberOf a.address) (.neutral a.address)).check
        g.config s a with
      | error f => cases f <;> rfl
      | ok checked =>
        dsimp only
        rw [← (h.monitor a.address _).view_put (g.pool.get?_numbers_monitor a.address _)]
        rfl

theorem sound_access (h : g.pool.Sound) (poisoned : Nat → Bool) (t : Handle) (a : Access) :
    (g.access poisoned t a).state.pool.Sound := by
  have hmonitor := h.monitor a.address (.neutral a.address)
  rw [access]
  cases g.registry.lookup t with
  | error e => exact h
  | ok s =>
    dsimp only
    split
    · exact hmonitor
    · split
      · rw [Reply.state_halt]
        exact hmonitor
      · exact hmonitor.put _ _

/-- An operation that locks no entry does what it does to the entries of the addresses. -/
theorem view_tell (h : g.pool.Sound) {op : Op Handle} (hop : ∀ t a, op ≠ .access t a) :
    (g.tell op).mapState view = g.view.step op := by
  have hshadow : op.location? = none → (g.view.step op).state.shadow = g.view.shadow :=
    Detector.shadow_step
  have hpool : (g.tell op).state.pool.view = (g.view.step op).state.shadow := by
    cases op with
    | access t a => exact absurd rfl (hop t a)
    | init address => exact h.view_monitor address _
    | forget address => exact g.pool.view_forget address
    | start | fork | join | exit | acquire | release | forgetLock => exact (hshadow rfl).symm
  have hconfig : (g.view.step op).state.config = g.config := g.view.config_step op
  have hraces : (g.view.step op).state.totalRaces = g.totalRaces :=
    g.view.totalRaces_step_of_ne_access hop
  calc (g.tell op).mapState view
      = ⟨⟨g.config, (g.view.step op).state.registry, (g.view.step op).state.locks,
          (g.tell op).state.pool.view, g.totalRaces⟩,
        (g.view.step op).result, (g.view.step op).notes⟩ := rfl
    _ = g.view.step op := by rw [hpool, ← hconfig, ← hraces]

theorem sound_tell (h : g.pool.Sound) (op : Op Handle) : (g.tell op).state.pool.Sound := by
  cases op with
  | init address => exact h.monitor address _
  | forget address => exact h.forget address
  | start | fork | join | exit | acquire | release | forgetLock | access => exact h

end PooledDetector

end RaceWatch
