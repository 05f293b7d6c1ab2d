import RaceWatch.Proofs.Admission
import RaceWatch.Proofs.CounterProgram

/-!
The counter without a lock is always flagged. What a worker does comes to be known to the
main thread alone, and only once that does nothing but join. So the accesses of different
workers are never ordered. The last access of each worker is a store, and the last store of
one of any two workers is followed by an access of another worker. Nothing else in the
program can be refused, so that all acts go through.
-/

namespace RaceWatch

namespace Counter

variable {rule : Rule} {K N M : Nat} {x : Address} {σ σ' : State} {a : Act Handle K}
  {outcome? : Option (Except (Failure Error) Value)} {s : Session K} {d : Detector rule K}
  {acts : List (Act Handle K)} {op : Op Handle}

/-! ### Nothing is refused -/

namespace State

/-- Whether each thread has exited, in the order of their identities. -/
def gone (σ : State) : Nat → Bool
  | 0 => false
  | k + 1 => σ.exited k

/-- The roster of a detector that was told of all that has happened. -/
def roster (σ : State) : Roster := ⟨0, (List.range σ.started).map σ.gone⟩

theorem status?_roster (σ : State) {i : Nat} (hi : i < σ.started) :
    σ.roster.status? ⟨0, i + 1⟩ = some (σ.gone i) := by
  simp [roster, Roster.status?, noThread, coordinateOf, hi]

theorem status?_main (h : 0 < σ.started) : σ.roster.status? main = some false :=
  σ.status?_roster h

theorem status?_worker {k : Nat} (h : k + 1 < σ.started) :
    σ.roster.status? (worker k) = some (σ.exited k) :=
  σ.status?_roster h

end State

theorem main_thread_ne (k : Nat) : main.thread ≠ (worker k).thread := by
  simp [main, worker]

/-- The roster does not refuse what a thread does next, and it follows. -/
theorem Move.admitted (m : Move N M x σ outcome? a σ') (h : σ.WellFormed N M) (hN : N + 1 ≤ K)
    (hK : K ≤ maxThread) (hop : a.op? = some op) :
    σ.roster.refusal? K op = none ∧ σ.roster.follow op = σ'.roster := by
  have hcases := h.started_cases
  have hfull (hlt : σ.started < N + 1) : σ.roster.refusal? K .start = none := by
    have hcapacity : ¬ (K = 0 ∨ maxThread < K) := by omega
    have hroom : ¬ K < ownerOf σ.roster.gone.length := by
      simp only [State.roster, List.length_map, List.length_range, ownerOf]
      omega
    rw [Roster.refusal?, Roster.full?, if_neg hcapacity, if_neg hroom]
  have hstart (hgone : σ.gone σ.started = false) :
      σ.roster.follow .start = State.roster { σ with started := σ.started + 1 } := by
    rw [Roster.follow, State.roster, State.roster, List.range_succ, List.map_append,
      List.map_singleton, ← hgone]
    rfl
  cases m with
  | begin h0 =>
    obtain rfl := Option.some.inj hop
    refine ⟨hfull (by omega), (hstart (by rw [h0]; rfl)).trans ?_⟩
    rw [h0]
  | start hs hlt =>
    obtain rfl := Option.some.inj hop
    refine ⟨hfull (by omega), hstart ?_⟩
    rw [hs, State.gone, ← Bool.not_eq_true]
    intro he
    exact absurd (h.exited _ he).1 (Nat.lt_irrefl _)
  | fork hs =>
    obtain rfl := Option.some.inj hop
    have hmain : σ.roster.status? main = some false := State.status?_main (by omega)
    have hworker : σ.roster.status? (worker σ.forked) = some false := by
      rw [State.status?_worker (by omega), Option.some.injEq, ← Bool.not_eq_true]
      intro he
      exact absurd (h.exited _ he).1 (Nat.lt_irrefl _)
    refine ⟨?_, rfl⟩
    rw [Roster.refusal?, Roster.pair?_eq_none hmain hworker (main_thread_ne _),
      Roster.exited?_eq_none hworker, Option.none_or]
  | @load k hk hm _ =>
    obtain rfl := Option.some.inj hop
    have hworker := State.status?_worker (h.started_of_forked hk)
    rw [h.not_exited_of_made hm] at hworker
    exact ⟨Roster.lone?_eq_none hworker, rfl⟩
  | @store k v hs =>
    obtain rfl := Option.some.inj hop
    have hworker := State.status?_worker (h.started_of_forked (h.seen k v hs).1)
    rw [h.not_exited_of_seen hs] at hworker
    exact ⟨Roster.lone?_eq_none hworker, rfl⟩
  | @exit k hk _ he =>
    obtain rfl := Option.some.inj hop
    have hworker := State.status?_worker (h.started_of_forked hk)
    rw [he] at hworker
    refine ⟨Roster.lone?_eq_none hworker, ?_⟩
    rw [Roster.follow, State.roster, State.roster, Roster.mk.injEq]
    refine ⟨rfl, List.ext_getElem (by simp) fun i hi hi' => ?_⟩
    rw [List.getElem_set]
    by_cases hik : i = k + 1
    · subst hik
      simp [worker, coordinateOf, State.gone]
    · cases i with
      | zero => simp [worker, coordinateOf, State.gone]
      | succ i =>
        have hne : i ≠ k := by omega
        simp [worker, coordinateOf, State.gone, hne, Ne.symm hne]
  | @join k hforked he _ =>
    obtain rfl := Option.some.inj hop
    have hk := (h.exited k he).1
    have hmain : σ.roster.status? main = some false := State.status?_main (by omega)
    have hworker := State.status?_worker (h.started_of_forked hk)
    exact ⟨Roster.pair?_eq_none hmain hworker (main_thread_ne _), rfl⟩

/-! ### The value of the cell -/

/-- What is known of a value of the cell, and of the values that were loaded. -/
structure State.Bounds (N : Nat) (σ : State) (c : Int) : Prop where
  nonneg : 0 ≤ c
  le_total : c ≤ σ.total N
  pos : 0 < σ.total N → 1 ≤ c
  seen : ∀ k v, σ.seen? k = some v → 0 ≤ v ∧ v ≤ σ.total N

theorem State.total_store (σ : State) {k : Nat} (hk : k < N) (seen? : Nat → Option Int) :
    State.total N { σ with made := Function.update σ.made k (σ.made k + 1), seen? := seen? } =
      σ.total N + 1 := by
  have hmem : k ∈ Finset.range N := Finset.mem_range.mpr hk
  simp only [State.total]
  rw [Finset.sum_update_of_mem hmem, ← Finset.add_sum_erase _ _ hmem, Finset.erase_eq]
  omega

/-- A move keeps the bounds, if a load hands back the value of the cell. -/
theorem Move.bounds (m : Move N M x σ outcome? a σ') (h : σ.WellFormed N M) {c : Int}
    (hc : σ.Bounds N c) (hload : ∀ i t, a = .load i t x → loaded? outcome? = some c) :
    σ'.Bounds N ((a.stored? x).getD c) := by
  obtain ⟨hnonneg, hle, hpos, hseen⟩ := hc
  cases m with
  | begin | start | fork | exit | join => exact ⟨hnonneg, hle, hpos, hseen⟩
  | @load k hk hm hs =>
    refine ⟨hnonneg, hle, hpos, fun j v hj => ?_⟩
    by_cases hjk : j = k
    · subst hjk
      simp only [Function.update_self, hload 0 _ rfl, Option.some.injEq] at hj
      exact hj ▸ ⟨hnonneg, hle⟩
    · exact hseen j v (by simpa [Function.update_apply, hjk] using hj)
  | @store k v hs =>
    have htotal := σ.total_store ((h.seen k v hs).1.trans_le h.forked_le)
      (Function.update σ.seen? k none)
    obtain ⟨hv, hvle⟩ := hseen k v hs
    have hstored : (Act.store 0 (worker k) x (v + 1) : Act Handle K).stored? x = some (v + 1) := by
      simp [Act.stored?]
    rw [hstored, Option.getD_some]
    refine ⟨by omega, ?_, fun _ => by omega, fun j u hj => ?_⟩
    · rw [htotal]
      push_cast
      omega
    · rw [htotal]
      by_cases hjk : j = k
      · subst hjk
        simp at hj
      · obtain ⟨hu, hule⟩ := hseen j u (by simpa [Function.update_apply, hjk] using hj)
        exact ⟨hu, by push_cast; omega⟩

/-! ### The last access of each worker -/

/-- Whether the last access of a thread is a write. -/
def EndsWithWrite (t : Nat) (touches : List (Nat × AccessKind)) : Prop :=
  ∃ before after, touches = before ++ (t, .write) :: after ∧ ∀ b ∈ after, b.1 ≠ t

namespace EndsWithWrite

variable {t u : Nat} {touches : List (Nat × AccessKind)}

theorem concat_write (t : Nat) (touches : List (Nat × AccessKind)) :
    EndsWithWrite t (touches ++ [(t, .write)]) :=
  ⟨touches, [], rfl, by simp⟩

theorem append {later : List (Nat × AccessKind)} (h : EndsWithWrite t touches)
    (hlater : ∀ b ∈ later, b.1 ≠ t) : EndsWithWrite t (touches ++ later) := by
  obtain ⟨before, after, rfl, hafter⟩ := h
  refine ⟨before, after ++ later, by simp, fun b hb => ?_⟩
  rcases List.mem_append.mp hb with hb | hb
  · exact hafter b hb
  · exact hlater b hb

/-- The next access is one of another thread, if there is a next one. -/
theorem clash_or_last (h : EndsWithWrite t touches) :
    (∃ w v, [w, v] <:+: touches ∧ Clashing w v) ∨ touches.getLast? = some (t, .write) := by
  obtain ⟨before, after, rfl, hafter⟩ := h
  cases after with
  | nil => exact .inr (by simp)
  | cons b rest =>
    have hne : b.1 ≠ t := hafter b List.mem_cons_self
    exact .inl ⟨(t, .write), b, ⟨before, rest, by simp⟩, hne.symm, .inl rfl⟩

/-- Only one thread can make the very last access. -/
theorem exists_clash (ht : EndsWithWrite t touches) (hu : EndsWithWrite u touches)
    (htu : t ≠ u) : ∃ w v, [w, v] <:+: touches ∧ Clashing w v := by
  rcases ht.clash_or_last with h | ht
  · exact h
  rcases hu.clash_or_last with h | hu
  · exact h
  · rw [ht] at hu
    simp [htu] at hu

end EndsWithWrite

/-- Whether each worker that has stored and has not loaded since has a store as its last
access. -/
def State.Settled (σ : State) (touches : List (Nat × AccessKind)) : Prop :=
  ∀ k, 0 < σ.made k → σ.seen? k = none → EndsWithWrite (worker k).thread touches

theorem Move.settled (m : Move N M x σ outcome? a σ') {touches : List (Nat × AccessKind)}
    (h : σ.Settled touches) (hload : ∀ i t, a = .load i t x → ∃ c, loaded? outcome? = some c)
    (hop : a.op? = some op) : σ'.Settled (touches ++ (op.touch? x).toList) := by
  intro j hmade hseen
  cases m with
  | begin | start | fork | exit | join =>
    obtain rfl := Option.some.inj hop
    simpa [Op.touch?] using h j hmade hseen
  | @load k hk hm hs =>
    obtain rfl := Option.some.inj hop
    have hjk : j ≠ k := by
      rintro rfl
      obtain ⟨c, hc⟩ := hload 0 _ rfl
      simp [hc] at hseen
    refine (h j hmade (by simpa [hjk] using hseen)).append ?_
    simpa [Op.touch?, worker] using hjk.symm
  | @store k v hs =>
    obtain rfl := Option.some.inj hop
    by_cases hjk : j = k
    · subst hjk
      simpa [Op.touch?] using EndsWithWrite.concat_write (worker j).thread touches
    · refine (h j (by simpa [hjk] using hmade) (by simpa [hjk] using hseen)).append ?_
      simpa [Op.touch?, worker] using Ne.symm hjk

/-! ### A whole run -/

/-- What has come of a run. -/
structure Through (s : Session K) (d : Detector rule K) (N : Nat) (x : Address)
    (acts : List (Act Handle K)) (σ : State) : Prop where
  succeeds : s.Succeeds acts
  roster_eq : (d.run (Act.ops acts)).roster = σ.roster
  cell : ∃ c, (s.run acts).cells[x]? = some c ∧ σ.Bounds N c
  settled : σ.Settled (accesses x (Act.ops acts))

theorem Move.exists_outcome (m : Move N M x σ outcome? a σ') (hw : s.Watches d) {c : Int}
    (hc : s.cells[x]? = some c) : ∃ result, s.outcome? a = some result := by
  cases m with
  | begin | start | fork | exit | join => exact ⟨_, Session.outcome?_call hw _ _⟩
  | load => exact Session.exists_outcome_load hw _ hc
  | store => exact Session.exists_outcome_store hw _ hc _

/-- What has come of a run comes of its next move too, unless a thread runs out of clock
values. -/
theorem Through.concat (h : Through s d N x acts σ) (run : Runs s N M x acts σ)
    (m : Move N M x σ ((s.run acts).outcome? a) a σ') {config : Config}
    (hd : Detector.create rule K config 0 = .ok d) (hw : s.Watches d) (hN : N + 1 ≤ K)
    (ho : ∀ t c, (s.run acts).outcome? a ≠ some (.error (.error (.fatal (.clockOverflow t c))))) :
    Through s d N x (acts ++ [a]) σ' := by
  obtain ⟨op, hop, -⟩ := m.exists_op
  obtain ⟨c, hc, hbounds⟩ := h.cell
  have hwatches := h.succeeds.watches_run hw run.meddles_eq_false
  obtain ⟨result, hresult⟩ := m.exists_outcome hwatches hc
  have htells := Session.tells_of_op? hwatches hop hresult
  obtain ⟨hrefusal, hfollow⟩ := m.admitted run.wellFormed hN (Detector.create_eq_ok hd).1 hop
  rw [← h.roster_eq] at hrefusal hfollow
  cases Detector.handled_run hd (Act.ops acts) op with
  | refused hrefused => simp [hrefusal] at hrefused
  | overflowed _ _ _ hstep =>
    rw [(htells.error_iff _).mpr hstep] at hresult
    exact absurd hresult (ho _ _)
  | done _ _ hstep hroster =>
    obtain ⟨v, rfl⟩ : ∃ v, result = .ok v := by
      cases result with
      | ok v => exact ⟨v, rfl⟩
      | error f => simp [(htells.error_iff f).mp rfl] at hstep
    have hload : ∀ i t, a = .load i t x → loaded? ((s.run acts).outcome? a) = some c := by
      rintro i t rfl
      obtain ⟨value, hvalue, rfl⟩ := (Session.tells_load hwatches hresult).2 v rfl
      rw [hresult, loaded?, ← hvalue, hc]
    refine ⟨?_, ?_, ⟨(a.stored? x).getD c, ?_, m.bounds run.wellFormed hbounds hload⟩, ?_⟩
    · exact Session.succeeds_concat.mpr ⟨h.succeeds, Session.wentThrough_iff.mpr ⟨v, hresult⟩⟩
    · rw [ops_concat hop, Detector.run_append, ← hfollow]
      exact hroster
    · rw [Session.run_concat, htells.cells_eq, hc, Act.written?]
      cases a.stored? x <;> rfl
    · rw [ops_concat hop, accesses_concat]
      exact m.settled h.settled (fun i t ha => ⟨c, hload i t ha⟩) hop

theorem Runs.through (h : Runs s N M x acts σ) {config : Config}
    (hd : Detector.create rule K config 0 = .ok d) (hw : s.Watches d)
    (hx : s.cells[x]? = some 0) (hN : N + 1 ≤ K) (ho : s.NoOverflow acts) :
    Through s d N x acts σ := by
  induction h with
  | nil =>
    obtain ⟨-, rfl⟩ := Detector.create_eq_ok hd
    refine ⟨by simp [Session.Succeeds], rfl, ⟨0, hx, ?_⟩, fun k hk => ?_⟩
    · constructor <;> simp [State.initial, State.total]
    · simp [State.initial] at hk
  | snoc run move ih =>
    obtain ⟨ho, hlast⟩ := ho.of_concat
    exact (ih ho).concat run move hd hw hN hlast

/-- Each start hands back the handle that its thread goes by in the program: the first one
that of the main thread, and each one after that the one of the next worker. -/
theorem Runs.outcome?_start (h : Runs s N M x acts σ) {config : Config}
    (hd : Detector.create rule K config 0 = .ok d) (hw : s.Watches d)
    (hx : s.cells[x]? = some 0) (hN : N + 1 ≤ K) (ho : s.NoOverflow acts)
    (m : Move N M x σ ((s.run acts).outcome? a) a σ') (ha : a = .call 0 .start none) :
    (s.run acts).outcome? a =
      some (.ok (.handle (if σ.started = 0 then main else worker σ.forked))) := by
  have hthrough := h.through hd hw hx hN ho
  have hwatches := hthrough.succeeds.watches_run hw h.meddles_eq_false
  have hsound := Detector.sound_after hd (Act.ops acts) (Act.ops acts).length
  rw [Detector.after_length] at hsound
  subst ha
  obtain ⟨hrefusal, -⟩ := m.admitted h.wellFormed hN (Detector.create_eq_ok hd).1 rfl
  rw [← hthrough.roster_eq] at hrefusal
  rw [Session.outcome?_call hwatches, hsound.result_start hrefusal, hthrough.roster_eq]
  cases m with
  | begin h0 => simp [State.roster, h0, main, ownerOf]
  | start hs => simp [State.roster, hs, worker, ownerOf]

/-- At the end all stores have been made. -/
theorem State.WellFormed.total_eq (h : σ.WellFormed N M) (hfinished : σ.Finished N) :
    σ.total N = N * M := by
  have hmade : ∀ k ∈ Finset.range N, σ.made k = M := fun k hk =>
    (h.exited k (h.joined k (hfinished k (Finset.mem_range.mp hk))).1).2
  rw [State.total, Finset.sum_congr rfl hmade, Finset.sum_const, Finset.card_range, smul_eq_mul]

/-! ### Workers do not learn of each other -/

/-- Whether a run is one of the operations of the program. -/
structure Obeys (x : Address) (H : Chronicle) : Prop where
  belongs : ∀ e ∈ H, Belongs x e.op
  inOrder : (H.map (·.op)).Pairwise InOrder

theorem Runs.obeys (h : Runs s N M x acts σ) (d : Detector rule K) :
    Obeys x (d.chronicle (Act.ops acts)) where
  belongs _ he := h.belongs _ (d.map_op_chronicle (Act.ops acts) ▸ List.mem_map_of_mem he)
  inOrder := (d.map_op_chronicle (Act.ops acts)).symm ▸ h.inOrder

/-- Whether all that is known after an event is known to a worker or to a main thread that
has begun to join. -/
def Confined (k : Nat) (e : Event) : Prop :=
  e.actor? = some (worker k).thread ∨ ∃ p c, e.op = .join p c

section Obeys

variable {H : Chronicle} {i j k : Nat} {e f : Event} {w v : Visit}

/-- The main thread only forks and joins, and nobody else does. -/
theorem Belongs.actor?_eq_main (h : Belongs x e.op) : e.actor? = some main.thread ↔
    (∃ p c, e.op = .fork p c) ∨ ∃ p c, e.op = .join p c := by
  cases hop : e.op with
  | fork p c | join p c =>
    rw [hop] at h
    simp [Event.actor?, Op.actor?, hop, h.1]
  | exit t =>
    rw [hop] at h
    obtain ⟨k, rfl⟩ := h
    simp [Event.actor?, Op.actor?, hop, (main_thread_ne k).symm]
  | access t a =>
    rw [hop] at h
    obtain ⟨-, k, rfl⟩ := h
    simp [Event.actor?, Op.actor?, hop, (main_thread_ne k).symm]
  | start => simp [Event.actor?, Op.actor?, hop]
  | acquire | release | forgetLock | init | forget => simp [Belongs, hop] at h

/-- Nobody is forked after a join. -/
theorem Obeys.ne_fork (h : Obeys x H) (hij : i < j) (hi : H.At i e) (hj : H.At j f)
    {p c : Handle} (hop : e.op = .join p c) (q c' : Handle) : f.op ≠ .fork q c' := by
  obtain ⟨hilt, rfl⟩ := List.getElem?_eq_some_iff.mp hi.1
  obtain ⟨hjlt, rfl⟩ := List.getElem?_eq_some_iff.mp hj.1
  have hpairwise := List.pairwise_iff_getElem.mp (List.pairwise_map.mp h.inOrder)
  exact hpairwise i j hilt hjlt hij ⟨p, c, hop⟩ q c'

theorem Obeys.confined_of_link (h : Obeys x H) (hlink : H.Link i j) (hi : H.At i e)
    (he : Confined k e) : ∃ f, H.At j f ∧ Confined k f := by
  obtain ⟨hij, e', f, hi', hj, hcases⟩ := hlink.cases
  obtain rfl := hi.unique hi'
  have hbelongs := h.belongs e (List.mem_of_getElem? hi.1)
  refine ⟨f, hj, ?_⟩
  rcases hcases with ⟨t, htells, hasks⟩ | ⟨lock, t, u, hop, -⟩
  · rcases hasks with hf | ⟨q, c, hf, -⟩
    · rcases he with he | ⟨p, c, hop⟩
      · -- A worker forks nobody, so that it is the worker itself that acts again.
        have hactor : e.actor? = some t := htells.resolve_right fun ⟨p, c, hop, _⟩ => by
          have hmain := hbelongs.actor?_eq_main.mpr (.inl ⟨p, c, hop⟩)
          exact main_thread_ne k (Option.some.inj (hmain.symm.trans he))
        exact .inl (hf.trans (hactor.symm.trans he))
      · -- The main thread acts again, and it has forked for the last time.
        have hactor : e.actor? = some t := htells.resolve_right fun ⟨p', c', hop', _⟩ => by
          simp [hop] at hop'
        have hmain := hbelongs.actor?_eq_main.mpr (.inr ⟨p, c, hop⟩)
        have hfork := (h.belongs f (List.mem_of_getElem? hj.1)).actor?_eq_main.mp
          (hf.trans (hactor.symm.trans hmain))
        exact .inr (hfork.resolve_left fun ⟨q, c', hf'⟩ => h.ne_fork hij hi hj hop q c' hf')
    · exact .inr ⟨q, c, hf⟩
  · rw [hop] at hbelongs
    exact hbelongs.elim

theorem Obeys.not_happensBefore (h : Obeys x H) (hw : H.Made x w) (hv : H.Made x v)
    (hne : w.thread ≠ v.thread) : ¬ H.HappensBefore w.position v.position := by
  intro hb
  obtain ⟨e, t, he, hop, ht⟩ := hw
  obtain ⟨f, u, hf, hop', hu⟩ := hv
  have hbelongs := h.belongs e (List.mem_of_getElem? he.1)
  rw [hop] at hbelongs
  obtain ⟨-, k, rfl⟩ := hbelongs
  have hconfined : Confined k e := .inl (by simp [Event.actor?, Op.actor?, hop])
  obtain ⟨f', hf', hconfined⟩ := hb.passes (fun _ _ _ => h.confined_of_link) he hconfined
  obtain rfl := hf.unique hf'
  rcases hconfined with hactor | ⟨p, c, hjoin⟩
  · have hthread : u.thread = (worker k).thread := by
      simpa [Event.actor?, Op.actor?, hop'] using hactor
    exact hne (ht.symm.trans (hthread.symm.trans hu))
  · simp [hop'] at hjoin

end Obeys

/-- In a run in which two workers have stored last, the cell is flagged. -/
theorem Through.raceCount_pos (h : Through s d N x acts σ) (run : Runs s N M x acts σ)
    {config : Config} (hd : Detector.create rule K config 0 = .ok d) (hw : s.Watches d)
    {k l : Nat} (hkl : k ≠ l) (hk : 0 < σ.made k ∧ σ.seen? k = none)
    (hl : 0 < σ.made l ∧ σ.seen? l = none) : 0 < (d.run (Act.ops acts)).raceCount x := by
  have hobeys := run.obeys d
  have hsucceeded := h.succeeds.succeeded_of_mem_chronicle hw run.meddles_eq_false
  have hne : (worker k).thread ≠ (worker l).thread := by simpa [worker] using hkl
  obtain ⟨a, b, hab, hclash⟩ :=
    (h.settled k hk.1 hk.2).exists_clash (h.settled l hl.1 hl.2) hne
  have ho : (d.chronicle (Act.ops acts)).NoOverflow := fun e he =>
    Event.not_overflowed_of_succeeded (hsucceeded e he)
  obtain ⟨hepoch, hprecise⟩ := Detector.raceCount_pos_iff_of_unordered hd ho
    (fun e he _ _ _ => hsucceeded e he)
    (fun e he hop => by simpa [hop, Belongs] using hobeys.belongs e he)
    fun _ _ => hobeys.not_happensBefore
  cases rule with
  | epoch => exact (hepoch rfl).mpr ⟨a, hab.subset (by simp), b, hab.subset (by simp), hclash⟩
  | precise => exact (hprecise rfl).mpr ⟨a, b, hab, hclash⟩

theorem create_cell (rule : Rule) (config : Config) (x : Address) (hK : K ≠ 0)
    (hmax : K ≤ maxThread) : ∃ s : Session K,
      Session.create K [(rule, config)] [(x, 0)] = .ok s ∧ s.cells[x]? = some 0 := by
  have hcapacity : checkCapacity K = .ok () :=
    if_neg (not_or.mpr ⟨hK, Nat.not_lt_of_le hmax⟩)
  refine ⟨⟨[⟨rule, config, .empty 0, .empty, .empty, 0⟩], .ofList [((x, 0) : Address × Int)], ∅⟩,
    ?_, ?_⟩
  · simp [Session.create, Detector.create, hcapacity, bind, Except.bind, pure, Except.pure]
  · simp

/-- A counter without a lock is flagged, whatever the interleaving. Let at least two
workers each add one to a cell that starts at zero, as often as one likes but at least
once, under a detector with room for all threads. Then in each run to the end all acts go
through, unless a thread uses up its clock values. The cell is flagged at the end, all
races are counted on it, and it holds at least one and at most the number of stores. -/
theorem unguarded_flagged (hN : 2 ≤ N) (hM : 1 ≤ M) (hK : N + 1 ≤ K) (hmax : K ≤ maxThread)
    (rule : Rule) (config : Config) (x : Address) :
    ∃ s : Session K, Session.create K [(rule, config)] [(x, 0)] = .ok s ∧
      ∀ acts σ, Runs s N M x acts σ → σ.Finished N → s.NoOverflow acts →
        s.Succeeds acts ∧ ∃ d : Detector rule K, (s.run acts).Watches d ∧
          1 ≤ d.raceCount x ∧ d.raceCount x = d.totalRaces ∧
          ∃ c, (s.run acts).cells[x]? = some c ∧ 1 ≤ c ∧ c ≤ N * M := by
  obtain ⟨s, hs, hx⟩ := create_cell rule config x (by omega : K ≠ 0) hmax
  refine ⟨s, hs, fun acts σ run hfinished ho => ?_⟩
  obtain ⟨d, hd, hw, -⟩ := Session.create_eq_ok hs
  have hthrough := run.through hd hw hx hK ho
  have hwell := run.wellFormed
  have hdone {k : Nat} (hk : k < N) : 0 < σ.made k ∧ σ.seen? k = none := by
    have hexited := (hwell.joined k (hfinished k hk)).1
    rw [(hwell.exited k hexited).2]
    exact ⟨hM, hwell.seen?_eq_none hexited⟩
  refine ⟨hthrough.succeeds, _, hthrough.succeeds.watches_run hw run.meddles_eq_false, ?_, ?_, ?_⟩
  · exact hthrough.raceCount_pos run hd hw Nat.zero_ne_one (hdone (by omega)) (hdone (by omega))
  · refine (Detector.totalRaces_eq_raceCount hd ?_ ?_).symm
    · rintro op hop t a rfl
      exact (run.belongs _ hop).1
    · rintro op hop rfl
      exact run.belongs _ hop
  · obtain ⟨c, hc, hbounds⟩ := hthrough.cell
    have htotal := hwell.total_eq hfinished
    refine ⟨c, hc, hbounds.pos ?_, ?_⟩
    · rw [htotal]
      exact Nat.mul_pos (by omega) hM
    · have hle := hbounds.le_total
      rw [htotal] at hle
      exact_mod_cast hle

/-- A detector for a main thread and two workers, and the cell. -/
def forWorkers (rule : Rule) : Session 3 :=
  ⟨[⟨rule, ⟨.default, .empty 0, .empty, .empty, 0⟩⟩], .ofList [((7, 0) : Address × Int)], ∅⟩

/-- Two workers load before either of them stores, so that one of the stores is lost. -/
def lostUpdate : List (Act Handle 3) :=
  [.call 0 .start none, .call 0 .start none, .call 0 (.fork main (worker 0)) none,
    .call 0 .start none, .call 0 (.fork main (worker 1)) none,
    .load 0 (worker 0) 7, .load 0 (worker 1) 7, .store 0 (worker 0) 7 1, .store 0 (worker 1) 7 1,
    .call 0 (.exit (worker 0)) none, .call 0 (.exit (worker 1)) none,
    .call 0 (.join main (worker 0)) none, .call 0 (.join main (worker 1)) none]

theorem runs_lostUpdate : ∃ σ, Runs (forWorkers .precise) 2 1 7 lostUpdate σ ∧ σ.Finished 2 := by
  have h : Runs (forWorkers .precise) 2 1 7 [] .initial := .nil
  have h := (h.snoc (.begin rfl)).snoc (.start rfl (by decide))
  have h := ((h.snoc (.fork rfl)).snoc (.start rfl (by decide))).snoc (.fork rfl)
  have h := h.snoc (.load (k := 0) (by decide) (by decide) rfl)
  have h := h.snoc (.load (k := 1) (by decide) (by decide) rfl)
  have h := h.snoc (.store (k := 0) (v := 0) (by decide))
  have h := h.snoc (.store (k := 1) (v := 0) (by decide))
  have h := h.snoc (.exit (k := 0) (by decide) (by decide) rfl)
  have h := h.snoc (.exit (k := 1) (by decide) (by decide) rfl)
  have h := h.snoc (.join (k := 0) rfl rfl rfl)
  have h := h.snoc (.join (k := 1) rfl rfl rfl)
  exact ⟨_, h, fun k hk => by interval_cases k <;> rfl⟩

theorem lostUpdate_flagged : ((forWorkers .precise).run lostUpdate).cells[7]? = some 1 ∧
    ∃ d : Detector .precise 3, ((forWorkers .precise).run lostUpdate).Watches d ∧
      1 ≤ d.raceCount 7 ∧ d.raceCount 7 = d.totalRaces := by
  obtain ⟨s, hs, h⟩ := unguarded_flagged (N := 2) (M := 1) (K := 3) (by decide) (by decide)
    (by decide) (by decide) .precise .default 7
  obtain rfl : forWorkers .precise = s := Except.ok.inj hs
  obtain ⟨σ, run, hfinished⟩ := runs_lostUpdate
  have hsucceeds : (forWorkers .precise).Succeeds lostUpdate := by decide
  obtain ⟨-, d, hw, hpos, htotal, -⟩ := h lostUpdate σ run hfinished hsucceeds.noOverflow
  exact ⟨by decide, d, hw, hpos, htotal⟩

end Counter

end RaceWatch
