import RaceWatch.Proofs.Transcript
import RaceWatch.Proofs.Lifetimes
import RaceWatch.Proofs.Exclusion

/-!
The balance of a detector that a script works with. At every moment, also in the middle of
the body of an access, the total of each detector is what its kept records and the records
that it has dropped count together. An access counts into its entry and into the total before
its body begins, so that neither a panic in the body nor the loss of the entry during it
comes in between. Nor does a failure of its check, which comes before anything is counted.
-/

namespace RaceWatch

namespace Session

variable {K : Nat} {s s' : Session K} {log : List (Outcome K)} {i : Nat} {a : Act Handle K}
  {r : Reply (Session K) Value} {rule : Rule} {d : Detector rule K}

/-- The record that an act makes a detector drop. -/
def drops? (i : Nat) (s : Session K) (a : Act Handle K) : Option RaceRecord := do
  let op ← a.tells? i
  let ⟨_, d⟩ ← s.detector? i
  d.drops? op

/-- The records that a detector drops while some things are done, in order. -/
def dropped (i : Nat) (s : Session K) : List (Outcome K) → List RaceRecord
  | [] => []
  | o :: rest => (s.drops? i o.act).toList ++ dropped i o.after rest

/-- A detector that an act does not tell of anything keeps its entries and its total, and its
threads stay where they are. -/
theorem exists_of_not_told (h : s.act? a = some r) (hnone : a.tells? i = none)
    (hd : s.detector? i = some ⟨rule, d⟩) :
    ∃ d' : Detector rule K, r.state.detector? i = some ⟨rule, d'⟩ ∧ d'.shadow = d.shadow ∧
      d'.totalRaces = d.totalRaces ∧ (d.Placed → d'.Placed) := by
  cases hplain : a.meddles with
  | false => exact ⟨d, (detector?_of_not_told h hnone hplain).trans hd, rfl, rfl, id⟩
  | true =>
    cases a with
    | observe t clock =>
      obtain rfl := Option.some.inj h
      have hget : s.detectors[i]? = some ⟨rule, d⟩ := hd
      rw [Reply.state_done, detector?, adjust, List.getElem?_map, hget, Option.map_some]
      -- To observe a clock moves one thread and touches nothing else.
      cases hl : d.registry.lookup t with
      | error e => exact ⟨d, by simp only [hl], rfl, rfl, id⟩
      | ok st =>
        exact ⟨{ d with registry := d.registry.put (st.observe clock) }, by simp only [hl], rfl,
          rfl, fun hplaced => hplaced.observe hl clock⟩
    | call | load | store | «recall» | look => simp [Act.meddles] at hplain

/-- What an act adds to the total of a detector it adds to a record that the detector keeps,
and what it takes from the records that are kept it drops. -/
theorem exists_balance_of_act (h : s.act? a = some r) (hd : s.detector? i = some ⟨rule, d⟩)
    (hplaced : d.Placed) :
    ∃ d' : Detector rule K, r.state.detector? i = some ⟨rule, d'⟩ ∧ d'.Placed ∧
      d'.totalRaces + d.keptRaces =
        d.totalRaces + d'.keptRaces + ((s.drops? i a).toList.map (·.count)).sum := by
  cases hop : a.tells? i with
  | some op =>
    obtain ⟨rule', d', htold⟩ := exists_told h hop
    cases htold.detector?_eq.symm.trans hd
    have hdrops : drops? i s a = d.drops? op := by simp [drops?, hop, hd]
    rw [hdrops]
    exact ⟨(d.step op).state, htold.detector?_after, hplaced.step op, hplaced.totalRaces_step op⟩
  | none =>
    obtain ⟨d', hd', hshadow, htotal, hkeeps⟩ := exists_of_not_told h hop hd
    have hdrops : drops? i s a = none := by simp [drops?, hop]
    have hkept : d'.keptRaces = d.keptRaces := by
      simp only [Detector.keptRaces, Detector.monitored, Detector.raceCount, Detector.races?,
        Detector.entryAt?, hshadow]
    refine ⟨d', hd', hkeeps hplaced, ?_⟩
    rw [hdrops, htotal, hkept]
    rfl

/-- The balance of one act carries over to all that is done. -/
theorem Does.exists_balance (h : s.Does log s') {d : Detector rule K}
    (hd : s.detector? i = some ⟨rule, d⟩) (hplaced : d.Placed) :
    ∃ d' : Detector rule K, s'.detector? i = some ⟨rule, d'⟩ ∧
      d'.totalRaces + d.keptRaces =
        d.totalRaces + d'.keptRaces + ((dropped i s log).map (·.count)).sum := by
  induction h generalizing d with
  | nil => exact ⟨d, hd, rfl⟩
  | cons hact _ ih =>
    obtain ⟨d₁, hd₁, hplaced₁, hfirst⟩ := exists_balance_of_act hact hd hplaced
    obtain ⟨d', hd', hrest⟩ := ih hd₁ hplaced₁
    refine ⟨d', hd', ?_⟩
    rw [dropped, List.map_append, List.sum_append]
    omega

/-- Whatever a script does with some new detectors, after each single thing it has done the
total of each detector is the number of races counted at the addresses that it monitors,
together with the number counted in each entry that it was made to forget, at that moment. -/
theorem totalRaces_eq_kept_add_dropped {detectors : List (Rule × Config)}
    {cells : List (Address × Int)} (h : create K detectors cells = .ok s) {config : Config}
    (hi : detectors[i]? = some (rule, config)) (script : Script K) (n : Nat) :
    ∃ d : Detector rule K, (s.upTo (script.log s) n).detector? i = some ⟨rule, d⟩ ∧
      d.totalRaces = ∑ x ∈ d.monitored, d.raceCount x +
        ((dropped i s ((script.log s).take n)).map (·.count)).sum := by
  obtain ⟨d₀, hcreate, hd₀⟩ := exists_detector?_of_create h hi
  have hplaced := Detector.placed_create hcreate
  obtain ⟨d, hd, hbalance⟩ := ((s.does_log script).take n).exists_balance hd₀ hplaced
  have hstart : d₀.totalRaces = d₀.keptRaces := Detector.totalRaces_run hcreate []
  refine ⟨d, hd, ?_⟩
  rw [← Detector.keptRaces]
  omega

/-- Two threads write to one location. While the second one does so, the first one writes to
another location, in the middle of which the first location is forgotten, and both of these
writes panic. Then the second thread writes to the other location too. -/
def interrupted : Script 2 :=
  .act (.call 0 .start none) <| .act (.call 0 .start none) <|
    .access 0 (.handle ⟨0, 1⟩) ⟨7, .write⟩ .finish false <|
    .access 0 (.handle ⟨0, 2⟩) ⟨7, .write⟩
      (.access 0 (.handle ⟨0, 1⟩) ⟨8, .write⟩ (.act (.call 0 (.forget 7) none) .finish) true
        .finish) true <|
    .act (.call 0 (.access (.handle ⟨0, 2⟩) ⟨8, .write⟩) none) .finish

theorem interrupted_balance : create 2 [(.epoch, .default)] [(7, 0)] = .ok (counting .epoch) ∧
    ∃ d : Detector .epoch 2,
      ((counting .epoch).upTo (interrupted.log (counting .epoch)) 7).detector? 0 =
        some ⟨.epoch, d⟩ ∧
      d.totalRaces = ∑ x ∈ d.monitored, d.raceCount x + 1 := by
  have hdropped : dropped 0 (counting .epoch) ((interrupted.log (counting .epoch)).take 7) =
      [⟨1, [⟨.writeWrite, 7, 2, 1⟩]⟩] := by decide
  obtain ⟨d, hd, htotal⟩ :=
    totalRaces_eq_kept_add_dropped (create_counting .epoch) (i := 0) rfl interrupted 7
  rw [hdropped] at htotal
  exact ⟨create_counting .epoch, d, hd, htotal⟩

end Session

end RaceWatch
