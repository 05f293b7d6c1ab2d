import RaceWatch.Entry
import RaceWatch.LockStore
import RaceWatch.Op
import RaceWatch.ShadowMemory

/-!
The parts of a detector, each used on its own: registries, thread states that were
copied out of one, lock stores, entries and shadow memories. All of them have names.

An entry lives on for as long as anything refers to it. Forgetting an address of a
shadow memory therefore does not end the life of an entry that was resolved before.
The entries are kept apart from the shadow memories, which refer to them by number.
-/

namespace RaceWatch

/-- An entry with the rule it belongs to. -/
abbrev AnyEntry (K : Nat) : Type := (rule : Rule) × Entry rule K

structure Workbench (K : Nat) where
  /-- Each registry's tag is its position. -/
  registries : List (Registry K)
  registryNames : Std.ExtTreeMap String Nat
  handles : Std.ExtTreeMap String Handle
  /-- States that are no longer those of a thread. -/
  snapshots : Std.ExtTreeMap String (ThreadState K)
  lockStores : Std.ExtTreeMap String (LockStore K)
  /-- Every entry that ever was. -/
  entries : List (AnyEntry K)
  entryNames : Std.ExtTreeMap String Nat
  shadows : Std.ExtTreeMap String (Rule × ShadowMemory Nat)

namespace Workbench

variable {K : Nat}

def empty : Workbench K := ⟨[], ∅, ∅, ∅, ∅, [], ∅, ∅⟩

/-- A thread state to work on: a copy, or the state that a handle refers to. -/
inductive Subject where
  | snapshot (name : String)
  | thread (handle : Handle)
deriving DecidableEq

/-- One use of a part. -/
inductive Step (K : Nat) where
  | newRegistry (name : String)
  | register (registry : String) (name : String)
  | fork (registry : String) (parent child : String)
  | join (registry : String) (parent child : String)
  | exit (registry : String) (thread : String)
  | ensureRegistered (registry : String) (thread : String)
  | recall (registry : String) (thread : Nat) (name? : Option String)
  | snapshot (subject : String) (name : String)
  | observe (subject : String) (clock : VectorClock K)
  | tick (subject : String)
  | ensureAlive (subject : String)
  | newLockStore (name : String)
  | acquire (locks : String) (lock : Address) (thread : String)
  | release (locks : String) (lock : Address) (thread : String)
  | forgetLock (locks : String) (lock : Address)
  | newEntry (name : String) (rule : Rule) (address : Address)
  | cloneEntry (entry : String) (name : String)
  | check (entry : String) (subject : String) (access : Access) (config : Config)
  | newShadow (name : String) (rule : Rule)
  | init (shadow : String) (address : Address)
  | resolve (shadow : String) (address : Address) (name : String)
  | forget (shadow : String) (address : Address)
  /-- Pause, for the parts to be looked at. -/
  | look

/-! ### Finding parts -/

def registryNamed? (w : Workbench K) (name : String) : Option (Registry K) := do
  w.registries[← w.registryNames[name]?]?

def handle? (w : Workbench K) (name : String) : Option Handle := w.handles[name]?

/-- What a name stands for as a thread state. Copies come before handles. -/
def subject? (w : Workbench K) (name : String) : Option Subject :=
  if w.snapshots.contains name then some (.snapshot name) else (w.handle? name).map .thread

def state? (w : Workbench K) : Subject → Option (ThreadState K)
  | .snapshot name => w.snapshots[name]?
  | .thread h => do (← w.registries[h.owner]?).state? h.thread

def setState (w : Workbench K) (subject : Subject) (s : ThreadState K) : Workbench K :=
  match subject with
  | .snapshot name => { w with snapshots := w.snapshots.insert name s }
  | .thread h => { w with registries := w.registries.modify h.owner (·.put s) }

def lockStore? (w : Workbench K) (name : String) : Option (LockStore K) := w.lockStores[name]?

def entryNamed? (w : Workbench K) (name : String) : Option (AnyEntry K) := do
  w.entries[← w.entryNames[name]?]?

def shadow? (w : Workbench K) (name : String) : Option (Rule × ShadowMemory Nat) :=
  w.shadows[name]?

/-- The entry that a shadow memory has for an address. -/
def shadowEntryAt? (w : Workbench K) (name : String) (address : Address) : Option (AnyEntry K) := do
  let (_, memory) ← w.shadow? name
  w.entries[← memory.get? address]?

/-! ### Using parts -/

def onRegistryNamed? {α : Type} (w : Workbench K) (name : String)
    (f : Registry K → Reply (Registry K) α) : Option (Reply (Workbench K) α) := do
  let tag ← w.registryNames[name]?
  let r ← w.registries[tag]?
  return (f r).mapState fun r => { w with registries := w.registries.set tag r }

/-- Use a lock store and a thread, which need not belong together. -/
def onLock? (w : Workbench K) (locks thread : String)
    (f : LockStore K → ThreadState K → Reply (LockStore K × ThreadState K) Unit) :
    Option (Reply (Workbench K) Value) := do
  let store ← w.lockStore? locks
  let subject := .thread (← w.handle? thread)
  let t ← w.state? subject
  return ((f store t).mapResult fun () => .unit).mapState fun (store, t) =>
    { w.setState subject t with lockStores := w.lockStores.insert locks store }

/-- Keep a new entry under the next number. -/
def addEntry (w : Workbench K) (entry : AnyEntry K) : Workbench K :=
  { w with entries := w.entries ++ [entry] }

def nameEntry (w : Workbench K) (name : String) (number : Nat) : Workbench K :=
  { w with entryNames := w.entryNames.insert name number }

def nameHandle (w : Workbench K) (name : String) (h : Handle) : Workbench K :=
  { w with handles := w.handles.insert name h }

/-- Monitor an address in a shadow memory. An address that is new there gets a new
entry. The number of its entry is given along. -/
def monitor (w : Workbench K) (shadow : String) (rule : Rule) (memory : ShadowMemory Nat)
    (address : Address) : Nat × Workbench K :=
  match memory.get? address with
  | some number => (number, w)
  | none =>
      let number := w.entries.length
      (number,
        { w.addEntry ⟨rule, .neutral address⟩ with
          shadows := w.shadows.insert shadow (rule, memory.monitor address number) })

/-- The result of a test that may be failed with an error. -/
def tested (w : Workbench K) : Except Error Unit → Reply (Workbench K) Value
  | .error e => .fail w e []
  | .ok () => .done w .unit []

/-- Use one part. There is no reply if a name stands for nothing. -/
def step? (w : Workbench K) : Step K → Option (Reply (Workbench K) Value)
  | .newRegistry name =>
      let tag := w.registries.length
      some (.done
        { w with
          registries := w.registries ++ [.empty tag]
          registryNames := w.registryNames.insert name tag }
        .unit [])
  | .register registry name => do
      let r ← w.onRegistryNamed? registry (·.register)
      return match r.result with
        | .error _ => r.mapResult .handle
        | .ok h => (r.mapResult .handle).mapState (·.nameHandle name h)
  | .fork registry parent child => do
      let p ← w.handle? parent
      let c ← w.handle? child
      return (← w.onRegistryNamed? registry (·.fork p c)).mapResult fun () => .unit
  | .join registry parent child => do
      let p ← w.handle? parent
      let c ← w.handle? child
      return (← w.onRegistryNamed? registry (·.join p c)).mapResult fun () => .unit
  | .exit registry thread => do
      let t ← w.handle? thread
      return (← w.onRegistryNamed? registry (·.exit t)).mapResult fun () => .unit
  | .ensureRegistered registry thread => do
      let t ← w.handle? thread
      let r ← w.registryNamed? registry
      return w.tested ((r.lookup t).map fun _ => ())
  | .recall registry thread name? => do
      let r ← w.registryNamed? registry
      return match r.handle? thread, name? with
        | none, _ => .done w .unit []
        | some h, none => .done w (.handle h) []
        | some h, some name => .done (w.nameHandle name h) (.handle h) []
  | .snapshot subject name => do
      let s ← w.state? (← w.subject? subject)
      return .done { w with snapshots := w.snapshots.insert name s } .unit []
  | .observe subject clock => do
      let subject ← w.subject? subject
      let s ← w.state? subject
      return .done (w.setState subject (s.observe clock)) .unit []
  | .tick subject => do
      let subject ← w.subject? subject
      let s ← w.state? subject
      return match s.tick with
        | .error f => .halt w [] f
        | .ok s => .done (w.setState subject s) .unit []
  | .ensureAlive subject => do
      let s ← w.state? (← w.subject? subject)
      return w.tested s.ensureAlive
  | .newLockStore name =>
      some (.done { w with lockStores := w.lockStores.insert name .empty } .unit [])
  | .acquire locks lock thread => w.onLock? locks thread (·.acquire lock ·)
  | .release locks lock thread => w.onLock? locks thread (·.release lock ·)
  | .forgetLock locks lock => do
      let r := (← w.lockStore? locks).forget lock
      return (r.mapResult .flag).mapState fun store =>
        { w with lockStores := w.lockStores.insert locks store }
  | .newEntry name rule address =>
      some (.done ((w.addEntry ⟨rule, .neutral address⟩).nameEntry name w.entries.length) .unit [])
  | .cloneEntry entry name => do
      let e ← w.entryNamed? entry
      return .done ((w.addEntry e).nameEntry name w.entries.length) .unit []
  | .check entry subject access config => do
      let number ← w.entryNames[entry]?
      let ⟨rule, e⟩ ← w.entries[number]?
      let subject ← w.subject? subject
      let s ← w.state? subject
      return match e.check config s access with
        | .error f => .halt w [] f
        | .ok checked =>
            .done
              { w.setState subject checked.thread with
                entries := w.entries.set number ⟨rule, checked.entry⟩ }
              (.number checked.counted) checked.notes
  | .newShadow name rule =>
      some (.done { w with shadows := w.shadows.insert name (rule, .empty) } .unit [])
  | .init shadow address => do
      let (rule, memory) ← w.shadow? shadow
      let r := memory.init address w.entries.length
      return (r.mapResult .flag).mapState fun _ => (w.monitor shadow rule memory address).2
  | .resolve shadow address name => do
      let (rule, memory) ← w.shadow? shadow
      let (number, w) := w.monitor shadow rule memory address
      return .done (w.nameEntry name number) .unit
        (memory.noteIfNew address (.monitoredOnAccess address))
  | .forget shadow address => do
      let (rule, memory) ← w.shadow? shadow
      return ((memory.forget address).mapResult .flag).mapState fun memory =>
        { w with shadows := w.shadows.insert shadow (rule, memory) }
  | .look => some (.done w .unit [])

/-- What each of some uses in turn leads to. -/
def run (w : Workbench K) : List (Step K) → List (Option (Reply (Workbench K) Value))
  | [] => []
  | step :: rest =>
      let r? := w.step? step
      r? :: ((r?.map (·.state)).getD w).run rest

end Workbench

end RaceWatch
