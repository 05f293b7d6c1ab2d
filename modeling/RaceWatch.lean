import RaceWatch.ClockBench
import RaceWatch.Script
import RaceWatch.Workbench
import RaceWatch.Proofs.Chronicle
import RaceWatch.Proofs.Clock
import RaceWatch.Proofs.Knowledge
import RaceWatch.Proofs.Causality
import RaceWatch.Proofs.Bookkeeping
import RaceWatch.Proofs.Visit
import RaceWatch.Proofs.Provenance
import RaceWatch.Proofs.Detection
import RaceWatch.Proofs.Adjacent
import RaceWatch.Proofs.EpochTest
import RaceWatch.Proofs.Admission
import RaceWatch.Proofs.Placement
import RaceWatch.Proofs.Ownership
import RaceWatch.Proofs.Ticks
import RaceWatch.Proofs.Agreement
import RaceWatch.Proofs.Omission
import RaceWatch.Proofs.Lockstep
import RaceWatch.Proofs.Lifetimes
import RaceWatch.Proofs.Reports
import RaceWatch.Proofs.Locality
import RaceWatch.Proofs.Unsynchronized
import RaceWatch.Proofs.Program
import RaceWatch.Proofs.Exclusion
import RaceWatch.Proofs.CounterProgram
import RaceWatch.Proofs.Counter
import RaceWatch.Proofs.Transcript
import RaceWatch.Proofs.Balance
import RaceWatch.Proofs.Isolation
import RaceWatch.Proofs.Idle
import RaceWatch.Proofs.Parts
import RaceWatch.Proofs.Independence
import RaceWatch.Proofs.EpochCheck
import RaceWatch.Proofs.Retention
import RaceWatch.Proofs.Renaming
import RaceWatch.Proofs.Verdict
import RaceWatch.Proofs.Findings
import RaceWatch.Proofs.Rerun
import RaceWatch.Proofs.Capacity
import RaceWatch.Proofs.Symmetry
import RaceWatch.Proofs.Transparency
import RaceWatch.Proofs.Settled
import RaceWatch.Proofs.Shortcut
import RaceWatch.Proofs.Repetition
import RaceWatch.Proofs.Multiplicity
import RaceWatch.Proofs.Failure
import RaceWatch.Proofs.ClockLattice
import RaceWatch.Proofs.Packing
import RaceWatch.Proofs.Discipline
import RaceWatch.Proofs.Lifecycle
import RaceWatch.Proofs.Pool
import RaceWatch.Proofs.Guarded
import RaceWatch.Proofs.Linearization
