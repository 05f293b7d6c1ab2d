/-!
The options of a detector. They say how much of what is found is reported, never
what is found.
-/

namespace RaceWatch

/-- How many races one location reports. -/
inductive Reporting where
  /-- Every unordered pair counts, also on a location that has raced before. -/
  | every
  /-- Only the first race on a location counts. -/
  | firstPerLocation
deriving DecidableEq

/-- The options of a detector. The number of threads is not among them: it is the
size of every clock. -/
structure Config where
  reporting : Reporting
  /-- How many races each location keeps for inspection. The count goes on after
  that many have been kept. -/
  maxEvents : Nat
deriving DecidableEq

namespace Config

/-- All races count, and the first 64 on each location are kept. -/
def default : Config := ⟨.every, 64⟩

instance : Inhabited Config := ⟨default⟩

/-- A choice for one of the options. -/
inductive Setting where
  | reporting (policy : Reporting)
  | maxEvents (limit : Nat)
deriving DecidableEq

def assign (c : Config) : Setting → Config
  | .reporting policy => { c with reporting := policy }
  | .maxEvents limit => { c with maxEvents := limit }

/-- The options before the first and after each of some choices. -/
def stages (c : Config) : List Setting → List Config
  | [] => [c]
  | s :: rest => c :: (c.assign s).stages rest

/-- The options that some choices lead to. -/
def assignAll (c : Config) (settings : List Setting) : Config := settings.foldl assign c

end Config

end RaceWatch
