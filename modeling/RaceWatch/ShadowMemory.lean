import RaceWatch.Reply
import Std.Data.ExtTreeMap

/-!
What is kept about each monitored location, by address. A location begins to be
monitored on request or by its first access, and until it is forgotten it keeps the
entry it then got.
-/

namespace RaceWatch

/-- The entries of the monitored addresses. -/
structure ShadowMemory (ε : Type) where
  entries : Std.ExtTreeMap Address ε

namespace ShadowMemory

variable {ε : Type}

def empty : ShadowMemory ε := ⟨∅⟩

def get? (m : ShadowMemory ε) (address : Address) : Option ε := m.entries[address]?

def size (m : ShadowMemory ε) : Nat := m.entries.size

def put (m : ShadowMemory ε) (address : Address) (entry : ε) : ShadowMemory ε :=
  ⟨m.entries.insert address entry⟩

/-- The entry that an address has, or would have once it is monitored. -/
def getD (m : ShadowMemory ε) (address : Address) (neutral : ε) : ε :=
  (m.get? address).getD neutral

/-- Monitor an address. One that is monitored already keeps its entry. -/
def monitor (m : ShadowMemory ε) (address : Address) (neutral : ε) : ShadowMemory ε :=
  ⟨m.entries.insertIfNew address neutral⟩

/-- What is noted when an address that was not monitored comes to be. -/
def noteIfNew (m : ShadowMemory ε) (address : Address) (note : Note) : List Note :=
  if m.entries.contains address then [] else [note]

/-- Monitor an address on request. The flag tells whether it was not monitored
before. -/
def init (m : ShadowMemory ε) (address : Address) (neutral : ε) : Reply (ShadowMemory ε) Bool :=
  .done (m.monitor address neutral) (!m.entries.contains address)
    (m.noteIfNew address (.monitored address))

/-- Stop monitoring an address. The flag tells whether it was monitored. -/
def forget (m : ShadowMemory ε) (address : Address) : Reply (ShadowMemory ε) Bool :=
  .done ⟨m.entries.erase address⟩ (m.entries.contains address) []

/-! ### The entry of each address -/

@[simp] theorem get?_empty (address : Address) :
    (empty : ShadowMemory ε).get? address = none := by
  simp [get?, empty]

theorem get?_put (m : ShadowMemory ε) (address a : Address) (entry : ε) :
    (m.put address entry).get? a = if address = a then some entry else m.get? a := by
  simp [get?, put, Std.ExtTreeMap.getElem?_insert]

theorem get?_monitor (m : ShadowMemory ε) (address a : Address) (neutral : ε) :
    (m.monitor address neutral).get? a =
      if address = a then some (m.getD address neutral) else m.get? a := by
  simp only [get?, getD, monitor, Std.ExtTreeMap.getElem?_insertIfNew]
  by_cases h : address = a
  · subst h
    by_cases hm : address ∈ m.entries
    · simp [hm]
    · simp [hm]
  · simp [h]

theorem get?_forget (m : ShadowMemory ε) (address a : Address) :
    (m.forget address).state.get? a = if address = a then none else m.get? a := by
  simp [get?, forget, Std.ExtTreeMap.getElem?_erase]

@[ext] theorem ext {m m' : ShadowMemory ε} (h : ∀ a, m.get? a = m'.get? a) : m = m' := by
  cases m
  cases m'
  exact congrArg mk (Std.ExtTreeMap.ext_getElem? h)

end ShadowMemory

end RaceWatch
