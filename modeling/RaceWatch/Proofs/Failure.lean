import RaceWatch.Proofs.Idle
import RaceWatch.Proofs.Isolation
import RaceWatch.Proofs.Transparency

/-!
What an operation leaves behind that fails. Nothing is undone when an operation fails, so what
has changed is what was done before. A handle of another detector is turned away before anything
is done. A lock or a location that an exited thread uses comes to be kept, and nothing else. And
where the next event of a thread has no epoch, what the thread knows has been passed on already.
The operation under observation has not run in any case, and no race was counted.
-/

namespace RaceWatch

/-- What a detector keeps of each thread, each lock and each location, and the number of all
races. -/
structure Contents (rule : Rule) (K : Nat) where
  thread? : Nat → Option (ThreadState K)
  lock? : Address → Option (VectorClock K)
  entry? : Address → Option (Entry rule K)
  totalRaces : Nat

namespace Contents

variable {rule : Rule} {K : Nat}

/-- The clock of a thread. -/
def clock (c : Contents rule K) (t : Nat) : VectorClock K :=
  ((c.thread? t).map (·.clock)).getD .zero

/-- A location gets a neutral entry, unless it has one. -/
def monitor (c : Contents rule K) (x : Address) : Contents rule K :=
  { c with entry? := Function.update c.entry? x (some ((c.entry? x).getD (.neutral x))) }

/-- A lock gets a clock that knows of no event, unless it has one. -/
def keep (c : Contents rule K) (lock : Address) : Contents rule K :=
  { c with lock? := Function.update c.lock? lock (some ((c.lock? lock).getD .zero)) }

/-- A lock gets a clock, whether or not it had one. -/
def publish (c : Contents rule K) (lock : Address) (clock : VectorClock K) : Contents rule K :=
  { c with lock? := Function.update c.lock? lock (some clock) }

/-- A clock is merged into that of a thread. -/
def teach (c : Contents rule K) (t : Nat) (clock : VectorClock K) : Contents rule K :=
  { c with
    thread? := Function.update c.thread? t
      ((c.thread? t).map fun s => { s with clock := s.clock.merge clock }) }

/-- What is there after a transfer of knowledge from one thread to another has failed with an
error. -/
def afterTransfer (c : Contents rule K) (giver receiver : Handle) : Error → Contents rule K
  | .fatal (.clockOverflow ..) => c.teach receiver.thread (c.clock giver.thread)
  | _ => c

/-- What is there after an operation has failed with an error. -/
def afterFailure (c : Contents rule K) (op : Op Handle) (e : Error) : Contents rule K :=
  match op with
  | .access _ a => match e with
    | .foreignThread _ => c
    | _ => c.monitor a.address
  | .acquire lock _ => match e with
    | .threadExited _ => c.keep lock
    | _ => c
  | .release lock t => match e with
    | .threadExited _ => c.keep lock
    | .fatal (.clockOverflow ..) => c.publish lock (c.clock t.thread)
    | _ => c
  | .fork p child => c.afterTransfer p child e
  | .join p child => c.afterTransfer child p e
  | .start | .exit _ | .forgetLock _ | .init _ | .forget _ => c

theorem afterTransfer_of_misuse {c : Contents rule K} {giver receiver : Handle} {e : Error}
    (he : e.isFatal = false) : c.afterTransfer giver receiver e = c := by
  cases e with
  | fatal => simp [Error.isFatal] at he
  | invalidCapacity | capacityExceeded | threadExited | foreignThread | selfSynchronization => rfl

end Contents

/-! ### A detector -/

namespace Detector

variable {rule : Rule} {K : Nat} {d : Detector rule K} {op : Op Handle} {e : Error} {t : Nat}
  {s : ThreadState K} {f : Failure Error}

def contents (d : Detector rule K) : Contents rule K :=
  ⟨d.state?, d.lockClock?, d.entryAt?, d.totalRaces⟩

theorem clock_contents (h : d.state? t = some s) : d.contents.clock t = s.clock := by
  simp [Contents.clock, contents, h]

theorem contents_monitor (d : Detector rule K) (x : Address) :
    contents { d with shadow := d.shadow.monitor x (.neutral x) } = d.contents.monitor x := by
  simp only [contents, Contents.monitor, Contents.mk.injEq, and_true]
  refine ⟨rfl, rfl, funext fun y => ?_⟩
  simp only [entryAt?, ShadowMemory.get?_monitor, ShadowMemory.getD, Function.update_apply,
    eq_comm (a := x)]

theorem contents_touch (d : Detector rule K) (lock : Address) :
    contents { d with locks := d.locks.touch lock } = d.contents.keep lock := by
  simp only [contents, Contents.keep, Contents.mk.injEq, and_true]
  refine ⟨rfl, funext fun l => ?_, rfl⟩
  simp only [lockClock?, LockStore.clock?_touch, Function.update_apply, eq_comm (a := lock)]

theorem contents_publish (d : Detector rule K) (lock : Address) (clock : VectorClock K) :
    contents { d with locks := d.locks.publish lock clock } = d.contents.publish lock clock := by
  simp only [contents, Contents.publish, Contents.mk.injEq, and_true]
  refine ⟨rfl, funext fun l => ?_, rfl⟩
  simp only [lockClock?, LockStore.clock?_publish, Function.update_apply, eq_comm (a := lock)]

theorem Sound.contents_put_observe (hd : d.Sound) (hs : d.state? t = some s)
    (clock : VectorClock K) :
    contents { d with registry := d.registry.put (s.observe clock) } =
      d.contents.teach t clock := by
  have hid : (s.observe clock).id = t := (hd.threads t s hs).id_eq
  simp only [contents, Contents.teach, Contents.mk.injEq, and_true]
  refine ⟨funext fun u => ?_, rfl, rfl⟩
  rw [state?, Registry.state?_put_of_some hs hid, Function.update_apply, hs]
  rfl

theorem contents_start_of_error (hr : d.start.result = .error f) :
    d.start.state.contents = d.contents := by
  rw [start, Reply.result_mapState] at hr
  rw [start, Reply.state_mapState, Registry.register_of_error hr]

theorem contents_exit_of_error {h : Handle} (hr : (d.exit h).result = .error f) :
    (d.exit h).state.contents = d.contents := by
  rw [exit, Reply.result_mapState] at hr
  rw [exit, Reply.state_mapState, Registry.exit_of_error hr]

theorem Sound.contents_fork_of_error (hd : d.Sound) {p c : Handle}
    (hr : (d.fork p c).result = .error (.error e))
    (hfatal : e.isFatal = true → ∃ t v, e = .fatal (.clockOverflow t v)) :
    (d.fork p c).state.contents = d.contents.afterFailure (.fork p c) e := by
  rw [fork, Reply.state_mapState]
  rcases Registry.fork_of_error hr with ⟨he, hstate⟩ | ⟨he, s, s', hp, hc, hstate⟩
  · rw [hstate, Contents.afterFailure, Contents.afterTransfer_of_misuse he]
  · obtain ⟨t, v, rfl⟩ := hfatal he
    rw [hstate, hd.contents_put_observe (Registry.state?_of_lookup hc),
      ← clock_contents (Registry.state?_of_lookup hp)]
    rfl

theorem Sound.contents_join_of_error (hd : d.Sound) {p c : Handle}
    (hr : (d.join p c).result = .error (.error e))
    (hfatal : e.isFatal = true → ∃ t v, e = .fatal (.clockOverflow t v)) :
    (d.join p c).state.contents = d.contents.afterFailure (.join p c) e := by
  rw [join, Reply.state_mapState]
  rcases Registry.join_of_error hr with ⟨he, hstate⟩ | ⟨he, s, s', hp, hc, hstate⟩
  · rw [hstate, Contents.afterFailure, Contents.afterTransfer_of_misuse he]
  · obtain ⟨t, v, rfl⟩ := hfatal he
    rw [hstate, hd.contents_put_observe (Registry.state?_of_lookup hp),
      ← clock_contents (Registry.state?_of_lookup hc)]
    rfl

theorem Sound.contents_acquire_of_error (hd : d.Sound) {lock : Address} {h : Handle}
    (hr : (d.acquire lock h).result = .error (.error e)) :
    (d.acquire lock h).state.contents = d.contents.afterFailure (.acquire lock h) e := by
  rcases hd.acquire_of_error hr with ⟨rfl, hstate⟩ | ⟨⟨t, rfl⟩, hstate⟩
  · rw [hstate]
    rfl
  · rw [hstate, contents_touch]
    rfl

theorem Sound.contents_release_of_error (hd : d.Sound) {lock : Address} {h : Handle}
    (hr : (d.release lock h).result = .error (.error e))
    (hfatal : e.isFatal = true → ∃ t v, e = .fatal (.clockOverflow t v)) :
    (d.release lock h).state.contents = d.contents.afterFailure (.release lock h) e := by
  rcases hd.release_of_error hr with ⟨rfl, hstate⟩ | ⟨⟨t, rfl⟩, hstate⟩ | ⟨he, s, hs, hstate⟩
  · rw [hstate]
    rfl
  · rw [hstate, contents_touch]
    rfl
  · obtain ⟨t, v, rfl⟩ := hfatal he
    rw [hstate, contents_publish, ← clock_contents (Registry.state?_of_lookup hs)]
    rfl

theorem Placed.contents_access_of_error (hd : d.Placed) {h : Handle} {a : Access}
    (hr : (d.access h a).result = .error (.error e)) :
    (d.access h a).state.contents = d.contents.afterFailure (.access h a) e := by
  simp only [access] at hr ⊢
  cases hl : d.registry.lookup h with
  | error e' =>
    obtain rfl := Registry.lookup_eq_error hl
    obtain rfl : .foreignThread h.thread = e := by simpa [hl] using hr
    rfl
  | ok s =>
    simp only [hl] at hr ⊢
    cases hx : s.exited with
    | true =>
      simp only [ThreadState.ensureAlive, hx, if_true, Reply.result_fail, Except.error.injEq,
        Failure.error.injEq] at hr ⊢
      subst hr
      exact d.contents_monitor a.address
    | false =>
      have halive : s.ensureAlive = .ok () := ThreadState.ensureAlive_eq_ok.mpr hx
      simp only [halive] at hr ⊢
      rcases hd.check_cases hl a with ⟨checked, hc⟩ | ⟨-, v, -, hc⟩
      · rw [entryOf] at hc
        simp [hc] at hr
      · -- The check fails at the tick that it begins with, before anything is reported.
        rw [entryOf] at hc
        simp only [hc, Reply.result_halt, Reply.state_halt] at hr ⊢
        obtain rfl : Error.fatal (.clockOverflow h.thread v) = e := by
          simpa [Failure.map] using hr
        exact d.contents_monitor a.address

/-- What an operation that has failed with an error has made of a detector. -/
structure Failed (d : Detector rule K) (op : Op Handle) (e : Error) (d' : Detector rule K) :
    Prop where
  config_eq : d'.config = d.config
  tag_eq : d'.registry.tag = d.registry.tag
  contents_eq : d'.contents = d.contents.afterFailure op e
  /-- No other break of the bookkeeping comes about. -/
  fatal : e.isFatal = true →
    ∃ t, op.ticks? rule = some t ∧ e = .fatal (.clockOverflow t Epoch.maxClock)
  /-- The cached epoch of each thread is still its own coordinate. -/
  epochs : ∀ t s, d'.state? t = some s → Epoch.construct t (s.clock.time t) = .ok s.epoch

/-- What fails does so with an error, and a fatal one is that a thread has used up its clock
values. -/
theorem Reached.exists_error (h : d.Reached) (hr : (d.step op).result = .error f) :
    ∃ e, f = .error e ∧ (e.isFatal = true →
      ∃ t, op.ticks? rule = some t ∧ e = .fatal (.clockOverflow t Epoch.maxClock)) := by
  have hhandled := h.handled op
  rw [hr] at hhandled
  cases f with
  | panic cause =>
    cases hhandled with
    | refused _ hresult | done _ _ hresult | overflowed _ _ _ hresult => simp at hresult
  | error e =>
    refine ⟨e, rfl, fun he => ?_⟩
    cases e with
    | fatal cause =>
      obtain ⟨t, -, hticks, -, -, rfl⟩ := h.sound.spent_of_fatal hhandled
      exact ⟨t, hticks, rfl⟩
    | invalidCapacity | capacityExceeded | threadExited | foreignThread
      | selfSynchronization => simp [Error.isFatal] at he

theorem Reached.contents_of_error (h : d.Reached)
    (hr : (d.step op).result = .error (.error e)) :
    (d.step op).state.contents = d.contents.afterFailure op e := by
  have hd := h.sound
  obtain ⟨_, he, hfatal⟩ := h.exists_error hr
  obtain rfl := Failure.error.inj he
  have hoverflow (he : e.isFatal = true) : ∃ t v, e = .fatal (.clockOverflow t v) := by
    obtain ⟨t, -, rfl⟩ := hfatal he
    exact ⟨t, _, rfl⟩
  cases op with
  | start => exact contents_start_of_error (map_eq_error.mp hr)
  | fork p c => exact hd.contents_fork_of_error (map_eq_error.mp hr) hoverflow
  | join p c => exact hd.contents_join_of_error (map_eq_error.mp hr) hoverflow
  | exit t => exact contents_exit_of_error (map_eq_error.mp hr)
  | acquire lock t => exact hd.contents_acquire_of_error (map_eq_error.mp hr)
  | release lock t => exact hd.contents_release_of_error (map_eq_error.mp hr) hoverflow
  | access t a => exact h.placed.contents_access_of_error (map_eq_error.mp hr)
  | forgetLock | init | forget => cases hr

theorem Reached.failed (h : d.Reached) (hr : (d.step op).result = .error f) :
    ∃ e, f = .error e ∧ d.Failed op e (d.step op).state := by
  obtain ⟨e, rfl, hfatal⟩ := h.exists_error hr
  exact ⟨e, rfl, config_step d op, d.tag_step op, h.contents_of_error hr, hfatal,
    fun t s hs => (h.step op).sound.construct_epoch hs⟩

/-- A fork that is not refused takes the parent into its next event, and can then be made again,
or the parent has used up its clock values. -/
theorem Reached.fork_cases (h : d.Reached) {p c : Handle}
    (hin : d.roster.refusal? K (.fork p c) = none) :
    ((d.step (.fork p c)).state.roster.refusal? K (.fork p c) = none ∧
      (d.step (.fork p c)).state.knowledge.own p.thread = d.knowledge.own p.thread + 1 ∧
      d.knowledge.own p.thread < Epoch.maxClock) ∨
    Epoch.maxClock ≤ d.knowledge.own p.thread ∧ (d.step (.fork p c)).result =
      .error (.error (.fatal (.clockOverflow p.thread (d.knowledge.own p.thread)))) := by
  have hown := h.sound.own_step (.fork p c) p.thread
  cases h.handled (.fork p c) with
  | refused hrefusal => simp [hin] at hrefusal
  | done _ hroom hresult hroster =>
    rw [hresult] at hown
    have hown := hown.trans (congrArg _ (if_pos rfl))
    exact .inl ⟨hroster ▸ hin, hown, hroom _ rfl⟩
  | overflowed _ hticks hfull hresult =>
    obtain rfl := Option.some.inj hticks
    exact .inr ⟨hfull, hresult⟩

end Detector

/-! ### A session -/

namespace Session

variable {K : Nat} {s s' : Session K} {a : Act Handle K} {r : Reply (Session K) Value}
  {log : List (Outcome K)}

/-- Only an act that tells a detector of an operation fails. -/
theorem exists_tells?_of_error {f : Failure Error} (hact : s.act? a = some r)
    (hr : r.result = .error f) : ∃ i op, a.tells? i = some op := by
  cases a with
  | call i | load i | store i => exact ⟨i, _, if_pos rfl⟩
  | «recall» i thread name? =>
    obtain ⟨⟨rule, d⟩, -, hact⟩ := Option.bind_eq_some_iff.mp hact
    have hreply := Option.some.inj hact
    cases hh : d.registry.handle? thread <;> simp [← hreply, hh] at hr
  | observe | look =>
    obtain rfl := Option.some.inj hact
    simp at hr

/-- Whether operations have led to each detector of the session since it was created. -/
def Reached (s : Session K) : Prop :=
  ∀ i (any : AnyDetector K), s.detector? i = some any → any.2.Reached

theorem reached_of_create {detectors : List (Rule × Config)} {cells : List (Address × Int)}
    (h : create K detectors cells = .ok s) : s.Reached := by
  intro i any hany
  rcases Nat.lt_or_ge i detectors.length with hi | hi
  · obtain ⟨d, hd, hat⟩ := exists_detector?_of_create h (List.getElem?_eq_getElem hi)
    obtain rfl := Option.some.inj (hat.symm.trans hany)
    exact ⟨_, i, d, [], hd, rfl⟩
  · simp [(of_create h).2.2 i hi] at hany

theorem Reached.act (h : s.Reached) (hact : s.act? a = some r) (hplain : a.meddles = false) :
    r.state.Reached := by
  intro i any hany
  cases hop : a.tells? i with
  | none =>
    rw [detector?_of_not_told hact hop hplain] at hany
    exact h i any hany
  | some op =>
    obtain ⟨rule, d, htold⟩ := exists_told hact hop
    obtain rfl := Option.some.inj (htold.detector?_after.symm.trans hany)
    exact (h i _ htold.detector?_eq).step op

theorem Reached.upTo (h : s.Reached) (hdoes : s.Does log s')
    (hplain : ∀ o ∈ log, o.act.meddles = false) (n : Nat) : (s.upTo log n).Reached :=
  (hdoes.take n).keeps (fun o ho => hplain o (List.mem_of_mem_take ho))
    (fun hact hplain h => h.act hact hplain) h

/-- What a failure leaves behind. A script runs in a session, and something that it does fails,
at any depth of nested accesses. Then this is an operation of which one detector is told, and it
fails with an error. No cell, no name and no other detector has changed, and this detector keeps
the same as before but for what `Contents.afterFailure` says of the operation and the error. A
fatal error is that the thread which the operation takes into a new event has used up its clock
values. The cached epoch of each thread is still its own coordinate. And if an access fails that
has a body, nothing of the body is done. -/
theorem effect_of_failure {detectors : List (Rule × Config)} {cells : List (Address × Int)}
    (h : create K detectors cells = .ok s) (script : Script K)
    (hplain : ∀ o ∈ script.log s, o.act.meddles = false) (n : Nat) :
    (∀ o f, (script.log s)[n]? = some o → o.result = .error f →
      ∃ (i : Nat) (op : Op Handle) (rule : Rule) (d : Detector rule K) (e : Error),
        o.act.tells? i = some op ∧ f = .error e ∧
        (s.upTo (script.log s) n).detector? i = some ⟨rule, d⟩ ∧
        o.after = { s.upTo (script.log s) n with
          detectors :=
            (s.upTo (script.log s) n).detectors.set i ⟨rule, (d.step op).state⟩ } ∧
        d.Failed op e (d.step op).state) ∧
    ∀ i t a o f (body : Script K) panics rest,
      (s.upTo (script.log s) n).perform? (.call i (.access t a) none) = some o →
      o.result = .error f →
        (Script.access i t a body panics rest).log (s.upTo (script.log s) n) =
          o :: rest.log o.after := by
  have hdoes := s.does_log script
  constructor
  · intro o f hn hf
    have hact := hdoes.act?_upTo hn
    obtain ⟨i, op, hop⟩ := exists_tells?_of_error hact hf
    obtain ⟨rule, d, htold⟩ := exists_told hact hop
    have hreached := (reached_of_create h).upTo hdoes hplain n i _ htold.detector?_eq
    have hresult : (d.step op).result = .error f := by
      rw [← htold.result_eq, hf]
      rfl
    obtain ⟨e, rfl, hfailed⟩ := hreached.failed hresult
    exact ⟨i, op, rule, d, e, hop, rfl, htold.detector?_eq, (htold.of_error _ hresult).2, hfailed⟩
  · intro i t a o f body panics rest hp hf
    have hrefused : (some o).filter (·.succeeded) = none := by simp [Outcome.succeeded, hf]
    rw [log_refused (hp ▸ hrefused), hp]
    rfl

/-! ### A thread that uses up its clock values -/

/-- The only detector of a session is told of a fork. -/
theorem exists_perform?_fork {rule : Rule} {d : Detector rule K} (hw : s.Watches d)
    (p c : Handle) :
    ∃ o, s.perform? (.call 0 (.fork (.handle p) (.handle c)) none) = some o ∧
      o.act = .call 0 (.fork p c) none ∧ o.result = (d.step (.fork p c)).result ∧
      o.after.Watches (d.step (.fork p c)).state := by
  have hcall := call?_eq hw (.fork p c)
  have hact : s.act? (.call 0 (.fork p c) none) = some ((d.step (.fork p c)).mapState
      fun d => { s with detectors := [⟨rule, d⟩] }) := by
    simp only [act?, hcall, Option.bind_eq_bind, Option.bind_some, Reply.result_mapState,
      Detector.step, Reply.result_mapResult]
    cases (d.fork p c).result <;> rfl
  refine ⟨⟨.call 0 (.fork p c) none, (d.step (.fork p c)).result,
    { s with detectors := [⟨rule, (d.step (.fork p c)).state⟩] }, (d.step (.fork p c)).notes⟩,
    ?_, rfl, rfl, rfl⟩
  simp [perform?, Act.resolve, Op.resolve, resolve?, hact, Reply.mapState]

section

variable {s : Session 2} {d : Detector .epoch 2} {n : Nat}

/-- The first thread forks the second one again and again. -/
def forks : Nat → Script 2
  | 0 => .finish
  | n + 1 => .act (.call 0 (.fork (.handle ⟨0, 1⟩) (.handle ⟨0, 2⟩)) none) (forks n)

theorem log_forks {o : Outcome 2}
    (ho : s.perform? (.call 0 (.fork (.handle ⟨0, 1⟩) (.handle ⟨0, 2⟩)) none) = some o) (n : Nat) :
    (forks (n + 1)).log s = o :: (forks n).log o.after := by
  change (s.perform? _).toList ++ (forks n).log (s.following (s.perform? _)) = _
  rw [ho]
  rfl

theorem meddles_of_mem_forks (hw : s.Watches d) (n : Nat) :
    ∀ o ∈ (forks n).log s, o.act.meddles = false := by
  induction n generalizing s d with
  | zero =>
    intro o ho
    cases ho
  | succ n ih =>
    obtain ⟨o, ho, hact, -, hafter⟩ := exists_perform?_fork hw ⟨0, 1⟩ ⟨0, 2⟩
    rw [log_forks ho, List.forall_mem_cons]
    exact ⟨hact ▸ rfl, ih hafter⟩

/-- The fork fails for which there is no clock value left. -/
theorem exists_overflow_of_forks (hw : s.Watches d) (h : d.Reached)
    (hin : d.roster.refusal? 2 (.fork ⟨0, 1⟩ ⟨0, 2⟩) = none)
    (hn : d.knowledge.own 1 + n = Epoch.maxClock) :
    ∃ o, ((forks (n + 1)).log s)[n]? = some o ∧ o.act = .call 0 (.fork ⟨0, 1⟩ ⟨0, 2⟩) none ∧
      o.result = .error (.error (.fatal (.clockOverflow 1 Epoch.maxClock))) := by
  induction n generalizing s d with
  | zero =>
    obtain ⟨o, ho, hact, hresult, -⟩ := exists_perform?_fork hw ⟨0, 1⟩ ⟨0, 2⟩
    have hown : d.knowledge.own 1 = Epoch.maxClock := hn
    rw [log_forks ho]
    rcases h.fork_cases hin with ⟨-, -, hroom⟩ | ⟨-, hfails⟩
    · exact absurd hroom (hown ▸ Nat.lt_irrefl _)
    · exact ⟨o, rfl, hact, hresult.trans (hown ▸ hfails)⟩
  | succ n ih =>
    obtain ⟨o, ho, -, -, hafter⟩ := exists_perform?_fork hw ⟨0, 1⟩ ⟨0, 2⟩
    rw [log_forks ho]
    rcases h.fork_cases hin with ⟨hin', hown, -⟩ | ⟨hfull, -⟩
    · have hown : (d.step (.fork ⟨0, 1⟩ ⟨0, 2⟩)).state.knowledge.own 1 =
        d.knowledge.own 1 + 1 := hown
      exact ih hafter (h.step _) hin' (by omega)
    · have hfull : Epoch.maxClock ≤ d.knowledge.own 1 := hfull
      omega

/-- Two threads start, and then the first one forks the second one again and again. -/
def exhausting (n : Nat) : Script 2 :=
  .act (.call 0 .start none) <| .act (.call 0 .start none) <| forks n

/-- The last of as many forks as there are clock values fails. The number of forks stays a
variable here, so that the script is nowhere run. -/
theorem exhausting_overflow (hn : n = Epoch.maxClock) :
    (∀ o ∈ (exhausting n).log (watched .epoch .default), o.act.meddles = false) ∧
    ∃ o, ((exhausting n).log (watched .epoch .default))[n + 1]? = some o ∧
      o.act = .call 0 (.fork ⟨0, 1⟩ ⟨0, 2⟩) none ∧
      o.result = .error (.error (.fatal (.clockOverflow 1 Epoch.maxClock))) := by
  let started := (watched .epoch .default).following
    ((watched .epoch .default).perform? (.call 0 .start none))
  let both := started.following (started.perform? (.call 0 .start none))
  obtain ⟨d, hw, hd⟩ : ∃ d : Detector .epoch 2, both.Watches d ∧
      d = Detector.run ⟨.default, .empty 0, .empty, .empty, 0⟩ [.start, .start] := ⟨_, rfl, rfl⟩
  have hreached : d.Reached := ⟨.default, 0, _, [.start, .start], rfl, hd⟩
  constructor
  · intro o ho
    rcases List.mem_cons.mp ho with rfl | ho
    · rfl
    rcases List.mem_cons.mp ho with rfl | ho
    · rfl
    · exact meddles_of_mem_forks hw n o ho
  · -- Each of the threads is in its first event.
    obtain ⟨m, rfl⟩ : ∃ m, n = m + 1 := Nat.exists_eq_succ_of_ne_zero (hn ▸ by decide)
    have hown : d.knowledge.own 1 = 1 := hd ▸ rfl
    have hin : d.roster.refusal? 2 (.fork ⟨0, 1⟩ ⟨0, 2⟩) = none := hd ▸ rfl
    exact exists_overflow_of_forks hw hreached hin (by omega)

end

/-- The store of the thread that has exited fails, and its location only comes to be monitored
again. An access of this thread would fail as well, and nothing of its body would be done. And the
fork fails for which the parent has no clock value left, but the child has learnt by then what the
parent knows. -/
theorem failure_of_disturbed :
    create 2 [(.epoch, .default)] [(7, 5), (8, 1)] = .ok (watched .epoch .default) ∧
    (∃ (rule : Rule) (d : Detector rule 2),
      ((watched .epoch .default).upTo (disturbed.log (watched .epoch .default)) 7).detector? 0 =
        some ⟨rule, d⟩ ∧
      (d.step (.access ⟨0, 1⟩ ⟨7, .write⟩)).state.contents = d.contents.monitor 7) ∧
    ((Script.access 0 (.name "a") ⟨8, .read⟩ disturbed true .finish).log
      ((watched .epoch .default).upTo (disturbed.log (watched .epoch .default)) 7)).length = 1 ∧
    (∃ (o : Outcome 2) (rule : Rule) (d : Detector rule 2),
      ((exhausting Epoch.maxClock).log (watched .epoch .default))[Epoch.maxClock + 1]? = some o ∧
      o.result = .error (.error (.fatal (.clockOverflow 1 Epoch.maxClock))) ∧
      ((watched .epoch .default).upTo ((exhausting Epoch.maxClock).log (watched .epoch .default))
        (Epoch.maxClock + 1)).detector? 0 = some ⟨rule, d⟩ ∧
      (d.step (.fork ⟨0, 1⟩ ⟨0, 2⟩)).state.contents =
        d.contents.teach 2 (d.contents.clock 1)) := by
  have h : create 2 [(.epoch, .default)] [(7, 5), (8, 1)] = .ok (watched .epoch .default) := rfl
  obtain ⟨hfails, hbody⟩ := effect_of_failure h disturbed (by decide) 7
  refine ⟨h, ?_, ?_, ?_⟩
  · obtain ⟨i, op, rule, d, e, hop, he, hd, -, hfailed⟩ :=
      hfails _ (.error (.threadExited 1)) rfl rfl
    obtain ⟨rfl, hop⟩ := Option.ite_none_right_eq_some.mp hop
    obtain rfl : Op.access ⟨0, 1⟩ ⟨7, .write⟩ = op := Option.some.inj hop
    obtain rfl := Failure.error.inj he
    exact ⟨rule, d, hd, hfailed.contents_eq⟩
  · rw [hbody 0 (.name "a") ⟨8, .read⟩ _ (.error (.threadExited 1)) disturbed true .finish rfl rfl]
    rfl
  · obtain ⟨hplain, o, ho, hact, hresult⟩ := exhausting_overflow rfl
    obtain ⟨hfails, -⟩ :=
      effect_of_failure h (exhausting Epoch.maxClock) hplain (Epoch.maxClock + 1)
    obtain ⟨i, op, rule, d, e, hop, he, hd, -, hfailed⟩ := hfails o _ ho hresult
    rw [hact] at hop
    obtain ⟨rfl, hop⟩ := Option.ite_none_right_eq_some.mp hop
    obtain rfl := Option.some.inj hop
    obtain rfl := Failure.error.inj he
    exact ⟨o, rule, d, ho, hresult, hd, hfailed.contents_eq⟩

end Session

end RaceWatch
