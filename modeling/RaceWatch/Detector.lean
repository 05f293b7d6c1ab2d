import RaceWatch.Entry
import RaceWatch.LockStore
import RaceWatch.Op
import RaceWatch.ShadowMemory

/-!
A detector observes one program: its threads, its locks and its monitored locations.
Each operation of the program is told to the detector, which keeps the order between
the threads in their clocks and checks every access under its rule.

An operation checks its handles first, so that a handle of another detector changes
nothing at all. Whether a thread has exited is looked at only after that, when a lock
or a location that is used for the first time has already come to be kept.
-/

namespace RaceWatch

structure Detector (rule : Rule) (K : Nat) where
  config : Config
  registry : Registry K
  locks : LockStore K
  shadow : ShadowMemory (Entry rule K)
  /-- The number of races counted on all locations, forgotten ones included. -/
  totalRaces : Nat

namespace Detector

variable {rule : Rule} {K : Nat}

/-- A detector that has observed nothing yet. -/
def create (rule : Rule) (K : Nat) (config : Config) (tag : Nat) :
    Except Error (Detector rule K) := do
  checkCapacity K
  return ⟨config, .empty tag, .empty, .empty, 0⟩

/-! ### What a detector can be asked -/

def state? (d : Detector rule K) (thread : Nat) : Option (ThreadState K) :=
  d.registry.state? thread

def lockClock? (d : Detector rule K) (lock : Address) : Option (VectorClock K) :=
  d.locks.clock? lock

def entryAt? (d : Detector rule K) (address : Address) : Option (Entry rule K) :=
  d.shadow.get? address

def races? (d : Detector rule K) (address : Address) : Option RaceRecord :=
  (d.entryAt? address).map (·.races)

/-- The number of races counted on a location, none if it is not monitored. -/
def raceCount (d : Detector rule K) (address : Address) : Nat :=
  ((d.races? address).map (·.count)).getD 0

/-- The races kept of a location, oldest first. -/
def raceEvents (d : Detector rule K) (address : Address) : List RaceEvent :=
  ((d.races? address).map (·.events)).getD []

/-! ### The operations -/

/-- A new thread comes to be. -/
def start (d : Detector rule K) : Reply (Detector rule K) Handle :=
  d.registry.register.mapState fun registry => { d with registry }

def fork (d : Detector rule K) (parent child : Handle) : Reply (Detector rule K) Unit :=
  (d.registry.fork parent child).mapState fun registry => { d with registry }

def join (d : Detector rule K) (parent child : Handle) : Reply (Detector rule K) Unit :=
  (d.registry.join parent child).mapState fun registry => { d with registry }

def exit (d : Detector rule K) (t : Handle) : Reply (Detector rule K) Unit :=
  (d.registry.exit t).mapState fun registry => { d with registry }

def acquire (d : Detector rule K) (lock : Address) (t : Handle) : Reply (Detector rule K) Unit :=
  match d.registry.lookup t with
  | .error e => .fail d e []
  | .ok s => (d.locks.acquire lock s).mapState fun (locks, s) =>
      { d with locks, registry := d.registry.put s }

def release (d : Detector rule K) (lock : Address) (t : Handle) : Reply (Detector rule K) Unit :=
  match d.registry.lookup t with
  | .error e => .fail d e []
  | .ok s => (d.locks.release lock s).mapState fun (locks, s) =>
      { d with locks, registry := d.registry.put s }

/-- Drop what is kept of a lock. -/
def forgetLock (d : Detector rule K) (lock : Address) : Reply (Detector rule K) Bool :=
  (d.locks.forget lock).mapState fun locks => { d with locks }

/-- Check an access that a thread is about to make. The access itself then happens
whatever races were found, unless the check fails. -/
def access (d : Detector rule K) (t : Handle) (a : Access) : Reply (Detector rule K) Unit :=
  match d.registry.lookup t with
  | .error e => .fail d e []
  | .ok s =>
      let entry := d.shadow.getD a.address (.neutral a.address)
      let notes := d.shadow.noteIfNew a.address (.monitoredOnAccess a.address)
      let d := { d with shadow := d.shadow.monitor a.address (.neutral a.address) }
      match s.ensureAlive with
      | .error e => .fail d e notes
      | .ok () => match entry.check d.config s a with
        | .error f => .halt d notes f
        | .ok checked =>
            .done
              { d with
                registry := d.registry.put checked.thread
                shadow := d.shadow.put a.address checked.entry
                totalRaces := d.totalRaces + checked.counted }
              () (notes ++ checked.notes)

/-- Begin to monitor a location. -/
def init (d : Detector rule K) (address : Address) : Reply (Detector rule K) Bool :=
  (d.shadow.init address (.neutral address)).mapState fun shadow => { d with shadow }

/-- Stop monitoring a location and drop what was found there. -/
def forget (d : Detector rule K) (address : Address) : Reply (Detector rule K) Bool :=
  (d.shadow.forget address).mapState fun shadow => { d with shadow }

/-! ### Runs -/

/-- Tell the detector of one operation. -/
def step (d : Detector rule K) : Op Handle → Reply (Detector rule K) Value
  | .start => d.start.mapResult .handle
  | .fork p c => (d.fork p c).mapResult fun () => .unit
  | .join p c => (d.join p c).mapResult fun () => .unit
  | .exit t => (d.exit t).mapResult fun () => .unit
  | .acquire lock t => (d.acquire lock t).mapResult fun () => .unit
  | .release lock t => (d.release lock t).mapResult fun () => .unit
  | .forgetLock lock => (d.forgetLock lock).mapResult .flag
  | .access t a => (d.access t a).mapResult fun () => .unit
  | .init address => (d.init address).mapResult .flag
  | .forget address => (d.forget address).mapResult .flag

/-- The detector after some operations. -/
def run (d : Detector rule K) (ops : List (Op Handle)) : Detector rule K :=
  ops.foldl (fun d op => (d.step op).state) d

/-- What each of some operations hands back. -/
def results (d : Detector rule K) : List (Op Handle) → List (Except (Failure Error) Value)
  | [] => []
  | op :: rest => (d.step op).result :: (d.step op).state.results rest

end Detector

end RaceWatch
