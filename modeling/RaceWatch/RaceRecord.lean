import RaceWatch.Config
import RaceWatch.Note

/-!
The races that were found on one location. A record counts them and keeps the
first of them, as far as the options ask for it.
-/

namespace RaceWatch

/-- The races counted on one location and those of them that were kept, oldest
first. -/
structure RaceRecord where
  count : Nat
  events : List RaceEvent
deriving DecidableEq

namespace RaceRecord

def empty : RaceRecord := ⟨0, []⟩

def isEmpty (r : RaceRecord) : Bool := r.count == 0

/-- Whether a further race is passed over. -/
def suppresses (r : RaceRecord) (config : Config) : Bool :=
  config.reporting == .firstPerLocation && r.count != 0

/-- The number of races that one more report counts. -/
def counted (r : RaceRecord) (config : Config) : Nat :=
  if r.suppresses config then 0 else 1

/-- Report one race. -/
def report (config : Config) (r : RaceRecord) (event : RaceEvent) : RaceRecord :=
  if r.suppresses config then r
  else
    { count := r.count + 1
      events := if r.events.length < config.maxEvents then r.events ++ [event] else r.events }

/-- What is noted on one report. -/
def note (config : Config) (r : RaceRecord) (event : RaceEvent) : Note :=
  if r.suppresses config then .suppressed event else .raced event

/-- Report some races in turn. -/
def reportAll (config : Config) (r : RaceRecord) (events : List RaceEvent) : RaceRecord :=
  events.foldl (report config) r

/-- How much each of some reports in turn counts. -/
def countedEach (config : Config) (r : RaceRecord) : List RaceEvent → List Nat
  | [] => []
  | event :: rest => r.counted config :: (r.report config event).countedEach config rest

/-- What is noted on each of some reports in turn. -/
def notesEach (config : Config) (r : RaceRecord) : List RaceEvent → List Note
  | [] => []
  | event :: rest => r.note config event :: (r.report config event).notesEach config rest

theorem count_report (config : Config) (r : RaceRecord) (event : RaceEvent) :
    (r.report config event).count = r.count + r.counted config := by
  simp only [report, counted]
  split <;> rfl

theorem count_reportAll (config : Config) (r : RaceRecord) (events : List RaceEvent) :
    (r.reportAll config events).count =
      r.count + (r.countedEach config events).foldr (· + ·) 0 := by
  induction events generalizing r with
  | nil => rfl
  | cons event rest ih =>
    rw [reportAll, List.foldl_cons, ← reportAll, ih, count_report, countedEach, List.foldr_cons,
      Nat.add_assoc]

end RaceRecord

end RaceWatch
