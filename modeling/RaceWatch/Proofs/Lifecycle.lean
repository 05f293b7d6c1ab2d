import RaceWatch.Proofs.Capacity
import RaceWatch.Proofs.Failure

/-!
The life of a thread. Identities are handed out in ascending order, up to the capacity and never
again, whether or not threads have exited in between. A thread has exited once it was made to,
and it stays so. Every operation that needs it alive is refused from then on, and its clock only
moves by its being joined, which takes its own coordinate one further.
-/

namespace RaceWatch

open VectorClock

/-- The threads that an operation needs alive, in the order in which they are looked at. A thread
that is joined may have exited. -/
def Op.needed {ρ : Type} : Op ρ → List ρ
  | .fork p c => [p, c]
  | .join p _ => [p]
  | .exit t | .acquire _ t | .release _ t | .access t _ => [t]
  | .start | .forgetLock _ | .init _ | .forget _ => []

theorem Op.mem_threads_of_needed {ρ : Type} {op : Op ρ} {g : ρ} (h : g ∈ op.needed) :
    g ∈ op.threads := by
  cases op with
  | join p c => exact List.mem_cons.mpr (.inl (List.mem_singleton.mp h))
  | start | fork | exit | acquire | release | forgetLock | access | init | forget => exact h

/-- A thread that an operation passes knowledge on to has to be alive. -/
theorem Op.exists_needed_of_target? {op : Op Handle} {t : Nat}
    (h : op.target? = some (.thread t)) : ∃ g ∈ op.needed, g.thread = t := by
  cases op with
  | fork p c | join c _ | acquire _ c =>
    exact ⟨c, by simp [needed], by simpa [target?] using h⟩
  | start | exit | release | forgetLock | access | init | forget => simp [target?] at h

namespace Event

variable {rule : Rule} {e : Event} {t : Nat}

/-- Whether a thread comes to be. -/
def starts (e : Event) : Bool := e.succeeded && e.op == .start

/-- Whether a thread is joined. -/
def joins (t : Nat) (e : Event) : Bool :=
  e.succeeded && match e.op with
    | .join _ c => c.thread == t
    | _ => false

/-- A thread that is joined begins a new event. -/
theorem ticker?_of_joins (h : e.joins t = true) : e.ticker? rule = some t := by
  obtain ⟨op, result⟩ := e
  obtain ⟨hs, hop⟩ := Bool.and_eq_true_iff.mp h
  cases op with
  | join p c =>
    obtain rfl := beq_iff_eq.mp hop
    cases result with
    | ok v => rfl
    | error f => simp [succeeded] at hs
  | start | fork | exit | acquire | release | forgetLock | access | init | forget =>
    simp at hop

/-- A thread that begins a new event in an operation that does not need it alive is joined, unless
it has come to be just now. -/
theorem joins_of_ticker? (h : e.ticker? rule = some t) (hstart : e.op ≠ .start)
    (hneeded : ∀ g ∈ e.op.needed, g.thread ≠ t) : e.joins t = true := by
  have hs := succeeded_of_ticker? h
  rw [ticker?_eq_ticked? hstart, ticked?, if_pos hs] at h
  rw [joins, hs, Bool.true_and]
  cases hop : e.op with
  | join p c =>
    rw [hop] at h
    exact beq_iff_eq.mpr (Option.some.inj h)
  | fork p c | release _ p =>
    rw [hop] at h hneeded
    exact absurd (Option.some.inj h) (hneeded p (by simp [Op.needed]))
  | access u a =>
    rw [hop] at h hneeded
    cases rule with
    | epoch => simp [Op.ticks?] at h
    | precise => exact absurd (Option.some.inj h) (hneeded u (by simp [Op.needed]))
  | start => exact absurd hop hstart
  | exit | acquire | forgetLock | init | forget => simp [hop, Op.ticks?] at h

end Event

namespace Chronicle

/-- How many threads come to be in some operations. -/
def starts (H : Chronicle) : Nat := H.countP (·.starts)

/-- How often a thread is joined in some operations. -/
def joins (H : Chronicle) (t : Nat) : Nat := H.countP (·.joins t)

variable {e : Event} {H : Chronicle} {t : Nat}

theorem starts_cons : starts (e :: H) = H.starts + if e.starts then 1 else 0 := List.countP_cons

theorem joins_cons : joins (e :: H) t = H.joins t + if e.joins t then 1 else 0 :=
  List.countP_cons

end Chronicle

/-- What a thread knows moves only by its being joined in operations that do not need it alive. -/
theorem Knowledge.tick?_pass_of_not_needed {K : Nat} {rule : Rule} {k : Knowledge K} {e : Event}
    {t : Nat} (hneeded : ∀ g ∈ e.op.needed, g.thread ≠ t)
    (hstart : e.ticker? rule = some t → e.op ≠ .start) :
    (k.pass e.op).tick? (e.ticker? rule) (.thread t) =
      if e.joins t then (k (.thread t)).advance t else k (.thread t) := by
  have hpass : k.pass e.op (.thread t) = k (.thread t) := by
    refine pass_of_ne_target k fun htarget => ?_
    obtain ⟨g, hg, hthread⟩ := Op.exists_needed_of_target? htarget
    exact hneeded g hg hthread
  by_cases hticker : e.ticker? rule = some t
  · rw [hticker, Event.joins_of_ticker? hticker (hstart hticker) hneeded, if_pos rfl, tick?, tick,
      replace_target, hpass]
  · have hjoins : e.joins t = false :=
      Bool.eq_false_iff.mpr fun h => hticker (Event.ticker?_of_joins h)
    rw [hjoins, ← hpass]
    cases hu : e.ticker? rule with
    | none => rfl
    | some u =>
      have hne : Place.thread t ≠ .thread u := by
        rintro ⟨rfl⟩
        exact hticker hu
      exact replace_of_ne _ _ hne

namespace Roster

variable {K : Nat} {r : Roster} {op : Op Handle} {a b g : Handle}

theorem status?_of_lone? (h : r.lone? a = none) : r.status? a = some false := by
  obtain ⟨hforeign, hexited⟩ := Option.or_eq_none_iff.mp h
  cases hs : r.status? a with
  | none => simp [foreign?, hs] at hforeign
  | some gone =>
    cases gone with
    | false => rfl
    | true => simp [exited?, hs] at hexited

theorem lone?_of_pair? (h : r.pair? a b = none) : r.lone? a = none := by
  obtain ⟨hab, hexited⟩ := Option.or_eq_none_iff.mp h
  obtain ⟨hforeign, -⟩ := Option.or_eq_none_iff.mp hab
  exact Option.or_eq_none_iff.mpr ⟨(Option.or_eq_none_iff.mp hforeign).1, hexited⟩

/-- Where nothing is refused, all threads are alive that the operation needs alive. -/
theorem status?_of_mem_needed (h : r.refusal? K op = none) (hg : g ∈ op.needed) :
    r.status? g = some false := by
  cases op with
  | fork p c =>
    obtain ⟨hpair, hexited⟩ := Option.or_eq_none_iff.mp h
    obtain rfl | rfl : g = p ∨ g = c := by simpa [Op.needed] using hg
    · exact status?_of_lone? (lone?_of_pair? hpair)
    · obtain ⟨hab, -⟩ := Option.or_eq_none_iff.mp hpair
      obtain ⟨hforeign, -⟩ := Option.or_eq_none_iff.mp hab
      exact status?_of_lone? (Option.or_eq_none_iff.mpr
        ⟨(Option.or_eq_none_iff.mp hforeign).2, hexited⟩)
  | join p c =>
    obtain rfl : g = p := by simpa [Op.needed] using hg
    exact status?_of_lone? (lone?_of_pair? h)
  | exit t | acquire _ t | release _ t | access t _ =>
    obtain rfl : g = t := by simpa [Op.needed] using hg
    exact status?_of_lone? h
  | start | forgetLock | init | forget => simp [Op.needed] at hg

/-- A thread that has exited stays so. -/
theorem status?_follow (h : r.status? g = some true) (op : Op Handle) :
    (r.follow op).status? g = some true := by
  obtain ⟨hg, hget⟩ := Option.ite_none_right_eq_some.mp h
  have hlt : coordinateOf g.thread < r.gone.length := (List.getElem?_eq_some_iff.mp hget).1
  cases op with
  | start =>
    refine (if_pos hg).trans ?_
    rw [follow, List.getElem?_append_left hlt, hget]
  | exit t =>
    refine (if_pos hg).trans ?_
    rw [follow, List.getElem?_set]
    split
    · rw [if_pos (by omega)]
    · exact hget
  | fork | join | acquire | release | forgetLock | access | init | forget => exact h

/-- Of all operations that go through, only its own exit makes a thread exit. -/
theorem status?_follow_iff (h : r.refusal? K op = none) :
    (r.follow op).status? g = some true ↔ r.status? g = some true ∨ op = .exit g := by
  constructor
  · intro hgone
    obtain ⟨hg, hget⟩ := Option.ite_none_right_eq_some.mp hgone
    cases op with
    | start =>
      -- The new thread has not exited, so it is one of those before.
      have hget : (r.gone ++ [false])[coordinateOf g.thread]? = some true := hget
      have hlt : coordinateOf g.thread < r.gone.length := by
        by_contra hnew
        rw [List.getElem?_append_right (Nat.le_of_not_lt hnew)] at hget
        simp [List.getElem?_singleton] at hget
      rw [List.getElem?_append_left hlt] at hget
      exact .inl ((if_pos hg).trans hget)
    | exit t =>
      have hlive := status?_of_mem_needed h (List.mem_singleton_self t)
      obtain ⟨ht, -⟩ := Option.ite_none_right_eq_some.mp hlive
      by_cases hsame : t.thread = g.thread
      · have howner : t.owner = g.owner := ht.1.trans hg.1.symm
        have hhandle : t = g := congrArg₂ Handle.mk howner hsame
        exact .inr (congrArg Op.exit hhandle)
      · have hne : coordinateOf t.thread ≠ coordinateOf g.thread := by
          simp only [coordinateOf, noThread] at ht hg ⊢
          omega
        have hget : (r.gone.set (coordinateOf t.thread) true)[coordinateOf g.thread]? =
          some true := hget
        rw [List.getElem?_set_ne hne] at hget
        exact .inl ((if_pos hg).trans hget)
    | fork | join | acquire | release | forgetLock | access | init | forget => exact .inl hgone
  · rintro (hgone | rfl)
    · exact status?_follow hgone op
    · have hlive := status?_of_mem_needed h (List.mem_singleton_self g)
      obtain ⟨hg, hget⟩ := Option.ite_none_right_eq_some.mp hlive
      have hlt : coordinateOf g.thread < r.gone.length := (List.getElem?_eq_some_iff.mp hget).1
      exact (if_pos hg).trans (List.getElem?_set_self hlt)

theorem length_follow (r : Roster) (op : Op Handle) :
    (r.follow op).gone.length = r.gone.length + if op = .start then 1 else 0 := by
  cases op with
  | start => simp [follow]
  | exit t => simp [follow]
  | fork | join | acquire | release | forgetLock | access | init | forget => rfl

/-- An operation is refused for the first thread that has exited of those that it needs alive, if
it names different threads of the detector. -/
theorem refusal?_of_gone {before rest : List Handle} (hsplit : op.needed = before ++ g :: rest)
    (hknown : ∀ u ∈ op.threads, (r.status? u).isSome = true)
    (hdistinct : (op.threads.map (·.thread)).Nodup)
    (hbefore : ∀ u ∈ before, r.status? u = some false)
    (hg : r.status? g = some true) : r.refusal? K op = some (.threadExited g.thread) := by
  have hgone : r.exited? g = some (.threadExited g.thread) := if_pos hg
  have hforeign (u : Handle) (hu : u ∈ op.threads) : r.foreign? u = none := by
    obtain ⟨gone, hs⟩ := Option.isSome_iff_exists.mp (hknown u hu)
    exact foreign?_eq_none hs
  have hpair (a b : Handle) (hthreads : op.threads = [a, b]) :
      ((r.foreign? a).or (r.foreign? b)).or (same? a b) = none := by
    have hne : a.thread ≠ b.thread := by simpa [hthreads] using hdistinct
    rw [hforeign a (by simp [hthreads]), hforeign b (by simp [hthreads]), same?, if_neg hne]
    rfl
  cases op with
  | start | forgetLock | init | forget => simp [Op.needed] at hsplit
  | exit t | acquire _ t | release _ t | access t _ =>
    obtain ⟨rfl, rfl⟩ : before = [] ∧ t = g := by cases before <;> simp_all [Op.needed]
    rw [refusal?, lone?, hforeign t (by simp [Op.threads]), hgone, Option.none_or]
  | join p c =>
    obtain ⟨rfl, rfl⟩ : before = [] ∧ p = g := by cases before <;> simp_all [Op.needed]
    rw [refusal?, pair?, hpair p c rfl, hgone, Option.none_or]
  | fork p c =>
    obtain ⟨rfl, rfl⟩ | ⟨rfl, rfl⟩ : (before = [] ∧ p = g) ∨ (before = [p] ∧ c = g) := by
      rcases before with - | ⟨p', - | ⟨c', before⟩⟩ <;> simp_all [Op.needed]
    · rw [refusal?, pair?, hpair p c rfl, hgone, Option.none_or, Option.some_or]
    · have hp : r.exited? p = none := exited?_eq_none (hbefore p (List.mem_singleton_self p))
      rw [refusal?, pair?, hpair p c rfl, hp, hgone, Option.none_or, Option.none_or]

end Roster

namespace Detector

variable {rule : Rule} {K : Nat} {d : Detector rule K} {config : Config} {tag t : Nat}
  {op : Op Handle} {ops : List (Op Handle)} {g : Handle} {s : ThreadState K}

/-! ### Identities -/

/-- The number of threads grows by one with each start that succeeds. -/
theorem Reached.size_step (h : d.Reached) (op : Op Handle) :
    (d.step op).state.registry.size =
      d.registry.size + if (⟨op, (d.step op).result⟩ : Event).starts then 1 else 0 := by
  rw [← length_gone, ← length_gone]
  cases h.handled op with
  | refused _ hresult hroster | overflowed _ _ _ hresult hroster =>
    simp [hroster, hresult, Event.starts, Event.succeeded]
  | done _ _ hresult hroster =>
    rw [hroster, Roster.length_follow]
    by_cases hop : op = .start
    · simp [hop, Event.starts, hop ▸ hresult, Event.succeeded]
    · simp [hop, Event.starts]

theorem Reached.run (h : d.Reached) (ops : List (Op Handle)) : (d.run ops).Reached := by
  obtain ⟨config, tag, d₀, ops₀, h, rfl⟩ := h
  exact ⟨config, tag, d₀, ops₀ ++ ops, h, by rw [run_append]⟩

theorem Reached.size_run (h : d.Reached) (ops : List (Op Handle)) :
    (d.run ops).registry.size = d.registry.size + (d.chronicle ops).starts := by
  induction ops generalizing d with
  | nil => rfl
  | cons op rest ih =>
    have hstep := ih (h.step op)
    rw [h.size_step op] at hstep
    rw [chronicle, Chronicle.starts_cons]
    exact hstep.trans (by omega)

theorem Knows.run (h' : d.Knows g) (ops : List (Op Handle)) : (d.run ops).Knows g := by
  induction ops generalizing d with
  | nil => exact h'
  | cons op rest ih => exact ih (h'.step op)

/-- The identities that have been handed out are those from 1 on to the number of threads. -/
theorem handle?_eq_some (d : Detector rule K) :
    d.registry.handle? t = some g ↔
      1 ≤ t ∧ t ≤ d.registry.size ∧ g = ⟨d.registry.tag, t⟩ := by
  have hsome : (∃ s, d.registry.state? t = some s) ↔ 1 ≤ t ∧ t ≤ d.registry.size := by
    by_cases h0 : t = noThread
    · subst h0
      simp [Registry.state?, noThread]
    · simp only [noThread] at h0
      simp only [Registry.state?, noThread, h0, if_false, List.getElem?_eq_some_iff,
        coordinateOf, Registry.size]
      constructor
      · rintro ⟨-, hlt, -⟩
        omega
      · intro h
        exact ⟨_, by omega, rfl⟩
  rw [Registry.handle?, Option.map_eq_some_iff, ← and_assoc, ← hsome, eq_comm (a := g)]
  constructor
  · rintro ⟨s, hs, hg⟩
    exact ⟨⟨s, hs⟩, hg⟩
  · rintro ⟨⟨s, hs⟩, hg⟩
    exact ⟨s, hs, hg⟩

/-- The next thread gets the next identity, as long as there is room. -/
theorem Reached.start_cases (h : d.Reached) (hcap : K ≠ 0) :
    (d.registry.size < K → (d.step .start).result =
      .ok (.handle ⟨d.registry.tag, d.registry.size + 1⟩)) ∧
    (K ≤ d.registry.size → (d.step .start).result = .error (.error (.capacityExceeded K)) ∧
      (d.step .start).state = d) := by
  have hrefusal := h.sound.refusal?_start hcap
  constructor
  · intro hlt
    rw [if_neg (by simp only [ownerOf]; omega)] at hrefusal
    rw [h.sound.result_start hrefusal, length_gone]
    rfl
  · intro hle
    rw [if_pos (by simp only [ownerOf]; omega)] at hrefusal
    exact (step_start_of_refused hrefusal).symm

/-! ### Threads that have exited -/

/-- The thread of a handle is one of the detector's own and has exited. -/
def Gone (d : Detector rule K) (h : Handle) : Prop :=
  ∃ s, d.registry.lookup h = .ok s ∧ s.exited = true

theorem gone_iff : d.Gone g ↔ d.roster.status? g = some true := by
  rw [roster, Registry.status?_roster]
  cases hl : d.registry.lookup g with
  | error e => simp [Gone, hl, Except.toOption]
  | ok s => simp [Gone, hl, Except.toOption]

theorem live_iff : d.Live g ↔ d.roster.status? g = some false := by
  rw [roster, Registry.status?_roster]
  cases hl : d.registry.lookup g with
  | error e => simp [Live, hl, Except.toOption]
  | ok s => simp [Live, hl, Except.toOption]

theorem gone_of_state? (hs : d.state? t = some s) (hx : s.exited = true) :
    d.Gone ⟨d.registry.tag, t⟩ :=
  ⟨s, Registry.lookup_eq_ok.mpr ⟨rfl, hs⟩, hx⟩

/-- A thread has exited if it had before, or by an exit that succeeds. -/
theorem Reached.gone_step_iff (h : d.Reached) (op : Op Handle) :
    (d.step op).state.Gone g ↔
      d.Gone g ∨ op = .exit g ∧ ∃ v, (d.step op).result = .ok v := by
  rw [gone_iff, gone_iff]
  cases h.handled op with
  | refused _ hresult hroster | overflowed _ _ _ hresult hroster => simp [hroster, hresult]
  | done hrefusal _ hresult hroster =>
    rw [hroster, hresult, Roster.status?_follow_iff hrefusal]
    simp

theorem Reached.gone_step (h : d.Reached) (hg : d.Gone g) (op : Op Handle) :
    (d.step op).state.Gone g :=
  (h.gone_step_iff op).mpr (.inl hg)

/-- An exit succeeds for each thread that has not exited yet, and for no other. -/
theorem Reached.exit_iff_live (h : d.Reached) :
    (∃ v, (d.step (.exit g)).result = .ok v) ↔ d.Live g := by
  constructor
  · rintro ⟨v, hv⟩
    cases h.handled (.exit g) with
    | refused _ hresult | overflowed _ _ _ hresult => simp [hv] at hresult
    | done hrefusal =>
      exact live_iff.mpr (Roster.status?_of_mem_needed hrefusal (List.mem_singleton_self g))
  · intro hlive
    have hin : d.LetsIn (.exit g) := hlive
    cases h.handled (.exit g) with
    | refused hrefusal => simp [hin.refusal?_eq_none (by simp)] at hrefusal
    | done _ _ hresult => exact ⟨_, hresult⟩
    | overflowed _ hticks => simp [Op.ticks?] at hticks

/-- An operation that takes effect is not refused. -/
theorem Reached.refusal?_of_effective (h : d.Reached)
    (heff : (⟨op, (d.step op).result⟩ : Event).effective = true) :
    d.roster.refusal? K op = none := by
  cases h.handled op with
  | refused hrefusal hresult =>
    rw [hresult, not_effective_of_error (Roster.isFatal_of_refusal? hrefusal)] at heff
    simp at heff
  | done hrefusal | overflowed hrefusal => exact hrefusal

/-- An operation that needs a thread alive fails if the thread has exited. -/
theorem Reached.error_of_gone (h : d.Reached) (hg : d.Gone g) (hneeded : g ∈ op.needed) :
    ∃ e, (d.step op).result = .error (.error e) := by
  have hstatus := gone_iff.mp hg
  cases h.handled op with
  | refused _ hresult => exact ⟨_, hresult⟩
  | done hrefusal | overflowed hrefusal =>
    simp [Roster.status?_of_mem_needed hrefusal hneeded] at hstatus

/-- If it names different threads of the detector, it fails for the first of them that has exited
of those that it needs alive. -/
theorem Reached.threadExited_of_gone (h : d.Reached) (hg : d.Gone g) (hneeded : g ∈ op.needed)
    (hknown : ∀ u ∈ op.threads, d.Knows u) (hdistinct : (op.threads.map (·.thread)).Nodup) :
    ∃ u before rest, op.needed = before ++ u :: rest ∧ d.Gone u ∧ (∀ v ∈ before, d.Live v) ∧
      (d.step op).result = .error (.error (.threadExited u.thread)) := by
  obtain ⟨u, hu⟩ := Option.isSome_iff_exists.mp
    ((List.find?_isSome (p := fun v => d.roster.status? v == some true)).mpr
      ⟨g, hneeded, beq_iff_eq.mpr (gone_iff.mp hg)⟩)
  obtain ⟨hgone, before, rest, hsplit, hbefore⟩ := List.find?_eq_some_iff_append.mp hu
  have hstatus (v : Handle) (hv : v ∈ before) : d.roster.status? v = some false := by
    have hmem : v ∈ op.needed := hsplit ▸ List.mem_append_left _ hv
    obtain ⟨gone, hv'⟩ := (hknown v (Op.mem_threads_of_needed hmem)).status?_eq
    have hne := hbefore v hv
    cases gone with
    | false => exact hv'
    | true => simp [hv'] at hne
  have hrefusal := Roster.refusal?_of_gone (K := K) hsplit
    (fun v hv => Option.isSome_iff_exists.mpr (hknown v hv).status?_eq) hdistinct hstatus
    (beq_iff_eq.mp hgone)
  refine ⟨u, before, rest, hsplit, gone_iff.mpr (beq_iff_eq.mp hgone),
    fun v hv => live_iff.mpr (hstatus v hv), ?_⟩
  cases h.handled op with
  | refused hrefusal' hresult => rw [hresult, Option.some.inj (hrefusal'.symm.trans hrefusal)]
  | done hnone | overflowed hnone => simp [hnone] at hrefusal

/-- What a thread knows that has exited moves only by its being joined. -/
theorem Reached.knowledge_step_of_gone (h : d.Reached) (hs : d.state? t = some s)
    (hx : s.exited = true) (op : Op Handle) :
    (d.step op).state.knowledge (.thread t) =
      if (⟨op, (d.step op).result⟩ : Event).joins t then (d.knowledge (.thread t)).advance t
      else d.knowledge (.thread t) := by
  rw [(h.sound.follows_step op).knowledge_eq]
  cases heff : (⟨op, (d.step op).result⟩ : Event).effective with
  | false =>
    have hjoins : (⟨op, (d.step op).result⟩ : Event).joins t = false := by
      refine Bool.eq_false_iff.mpr fun hj => ?_
      have hsucceeded := (Bool.and_eq_true_iff.mp hj).1
      simp [Event.effective_of_succeeded hsucceeded] at heff
    rw [Knowledge.follow_of_not_effective heff, hjoins]
    rfl
  | true =>
    rw [Knowledge.follow_of_effective heff]
    refine Knowledge.tick?_pass_of_not_needed (fun g hg hthread => ?_) fun hticker hop => ?_
    · have hlive := Roster.status?_of_mem_needed (h.refusal?_of_effective heff) hg
      have howner : g.owner = d.registry.tag := (Option.ite_none_right_eq_some.mp hlive).1.1
      have hgone := gone_iff.mp (gone_of_state? hs hx)
      rw [← howner, ← hthread] at hgone
      simp [hlive] at hgone
    · -- A thread that has just come to be has not exited before.
      obtain rfl : op = .start := hop
      obtain ⟨v, hv⟩ := Event.exists_ok_of_succeeded (Event.succeeded_of_ticker? hticker)
      have hpos := h.sound.own_pos hs
      rw [h.sound.own_of_start hv (hv ▸ hticker)] at hpos
      exact Nat.lt_irrefl 0 hpos

/-- A thread that has exited stays so, and its own coordinate counts how often it is joined. -/
theorem Reached.gone_run (h : d.Reached) (hs : d.state? t = some s) (hx : s.exited = true)
    (ops : List (Op Handle)) :
    ∃ s', (d.run ops).state? t = some s' ∧ s'.exited = true ∧
      ∀ u, s'.clock.time u =
        s.clock.time u + if u = t then (d.chronicle ops).joins t else 0 := by
  induction ops generalizing d s with
  | nil => exact ⟨s, hs, hx, fun u => by simp [chronicle, Chronicle.joins]⟩
  | cons op rest ih =>
    obtain ⟨s₁, hlookup, hx₁⟩ := h.gone_step (gone_of_state? hs hx) op
    have hs₁ : (d.step op).state.state? t = some s₁ := Registry.state?_of_lookup hlookup
    obtain ⟨s', hs', hx', hclock⟩ := ih (h.step op) hs₁ hx₁
    refine ⟨s', hs', hx', fun u => ?_⟩
    have hstep := h.knowledge_step_of_gone hs hx op
    rw [knowledge, knowledge, Knowledge.of_thread hs₁, Knowledge.of_thread hs] at hstep
    rw [hclock u, hstep, chronicle, Chronicle.joins_cons]
    have hfits := (h.sound.threads t s hs).fits
    by_cases hu : u = t
    · subst hu
      rw [if_pos rfl, if_pos rfl]
      split
      · rw [time_advance_self hfits, Nat.add_assoc, Nat.add_comm 1]
      · rfl
    · rw [if_neg hu, if_neg hu]
      split
      · rw [time_advance_of_ne hu]
      · rfl

/-- The handles that were handed out are known for good. -/
theorem knows_of_mem_results (h : .ok (.handle g) ∈ d.results ops) : (d.run ops).Knows g := by
  induction ops generalizing d with
  | nil => simp [results] at h
  | cons op rest ih =>
    rcases List.mem_cons.mp h with hfirst | hrest
    · exact (knows_of_result hfirst.symm).run rest
    · exact ih hrest

/-- The life of the threads of a detector. The threads that come to be get the identities from 1
on, and there are at most as many of them as the capacity allows for. Every further start fails
and changes nothing, whoever has exited. There is a thread for an identity exactly if the identity
has been handed out, and each handle that was handed out is the one that its identity yields and
denotes the state of that thread. An exit succeeds for each thread that has not exited yet, and it
alone makes the thread one that has. Once a thread has exited it stays so, whatever is done later.
Each operation that needs it alive fails, whichever handles it is given, and if it names different
threads of the detector, it fails for the first of them that has exited. The clock of the thread
changes in its own coordinate only, which counts how often the thread is joined. -/
theorem thread_lifecycle (h : create rule K config tag = .ok d) :
    (∀ ops, (d.run ops).registry.size = (d.chronicle ops).starts ∧
      (d.chronicle ops).starts ≤ K ∧
      ((d.chronicle ops).starts < K → ((d.run ops).step .start).result =
        .ok (.handle ⟨tag, (d.chronicle ops).starts + 1⟩)) ∧
      ((d.chronicle ops).starts = K →
        ((d.run ops).step .start).result = .error (.error (.capacityExceeded K)) ∧
        ((d.run ops).step .start).state = d.run ops)) ∧
    (∀ ops t g, (d.run ops).registry.handle? t = some g ↔
      1 ≤ t ∧ t ≤ (d.run ops).registry.size ∧ g = ⟨tag, t⟩) ∧
    (∀ ops g, .ok (.handle g) ∈ d.results ops →
      (d.run ops).registry.handle? g.thread = some g ∧
      ∃ s, (d.run ops).registry.lookup g = .ok s ∧ (d.run ops).state? g.thread = some s) ∧
    (∀ ops g, ((∃ v, ((d.run ops).step (.exit g)).result = .ok v) ↔ (d.run ops).Live g) ∧
      ∀ op, ((d.run ops).step op).state.Gone g ↔
        (d.run ops).Gone g ∨ op = .exit g ∧ ∃ v, ((d.run ops).step op).result = .ok v) ∧
    (∀ ops t s, (d.run ops).state? t = some s → s.exited = true → ∀ later,
      (∃ s', (d.run (ops ++ later)).state? t = some s' ∧ s'.exited = true ∧
        ∀ u, s'.clock.time u =
          s.clock.time u + if u = t then ((d.run ops).chronicle later).joins t else 0) ∧
      ∀ op, ⟨tag, t⟩ ∈ op.needed →
        (∃ e, ((d.run (ops ++ later)).step op).result = .error (.error e)) ∧
        ((∀ u ∈ op.threads, (d.run (ops ++ later)).Knows u) →
          (op.threads.map (·.thread)).Nodup →
          ∃ u before rest, op.needed = before ++ u :: rest ∧
            (d.run (ops ++ later)).Gone u ∧ (∀ v ∈ before, (d.run (ops ++ later)).Live v) ∧
            ((d.run (ops ++ later)).step op).result =
              .error (.error (.threadExited u.thread)))) := by
  have hcap : K ≠ 0 := ne_zero_of_create h
  have hreached (ops : List (Op Handle)) : (d.run ops).Reached := ⟨config, tag, d, ops, h, rfl⟩
  have htag (ops : List (Op Handle)) : (d.run ops).registry.tag = tag := by
    rw [← after_length, tag_after h]
  have hsize (ops : List (Op Handle)) : (d.run ops).registry.size = (d.chronicle ops).starts := by
    have hrun := (hreached []).size_run ops
    obtain ⟨-, rfl⟩ := create_eq_ok h
    simpa [run, Registry.empty, Registry.size] using hrun
  refine ⟨fun ops => ⟨hsize ops, ?_, ?_, ?_⟩, fun ops t g => ?_, fun ops g hg => ?_,
    fun ops g => ⟨(hreached ops).exit_iff_live, (hreached ops).gone_step_iff⟩,
    fun ops t s hs hx later => ⟨?_, fun op hneeded => ?_⟩⟩
  · exact hsize ops ▸ (hreached ops).sound.size_le
  · rw [← hsize, ← htag ops]
    exact ((hreached ops).start_cases hcap).1
  · intro hfull
    rw [← hsize] at hfull
    exact ((hreached ops).start_cases hcap).2 hfull.ge
  · rw [handle?_eq_some, htag]
  · have hknows := knows_of_mem_results hg
    obtain ⟨s, hs⟩ := hknows
    refine ⟨?_, s, hs, Registry.state?_of_lookup hs⟩
    rw [Registry.handle?, Registry.state?_of_lookup hs, Option.map_some,
      ← (Registry.lookup_eq_ok.mp hs).1]
  · rw [run_append]
    exact (hreached ops).gone_run hs hx later
  · obtain ⟨s', hs', hx', -⟩ := (hreached ops).gone_run hs hx later
    rw [← run_append] at hs'
    have hgone := gone_of_state? hs' hx'
    rw [htag] at hgone
    exact ⟨(hreached _).error_of_gone hgone hneeded,
      (hreached _).threadExited_of_gone hgone hneeded⟩

/-- Of two threads the second one exits. -/
def departure : List (Op Handle) := [.start, .start, .exit ⟨0, 2⟩]

/-- Then it is joined, fails to access a location, and a third thread comes to be. In the end the
first thread exits as well. -/
def aftermath : List (Op Handle) :=
  [.join ⟨0, 1⟩ ⟨0, 2⟩, .access ⟨0, 2⟩ ⟨7, .write⟩, .start, .exit ⟨0, 1⟩]

theorem lifecycle_departure :
    create .epoch 3 .default 0 = .ok (forThree .epoch) ∧
    ((forThree .epoch).run departure).Gone ⟨0, 2⟩ ∧
    ∃ s s', ((forThree .epoch).run departure).state? 2 = some s ∧ s.exited = true ∧
      ((forThree .epoch).run (departure ++ aftermath)).state? 2 = some s' ∧ s'.exited = true ∧
      s'.clock.time 2 = s.clock.time 2 + 1 ∧ s'.clock.time 1 = s.clock.time 1 ∧
      ∃ u, ((forThree .epoch).run (departure ++ aftermath)).Gone u ∧
        (((forThree .epoch).run (departure ++ aftermath)).step (.fork ⟨0, 1⟩ ⟨0, 2⟩)).result =
          .error (.error (.threadExited u.thread)) := by
  obtain ⟨-, -, -, hexit, hlife⟩ := thread_lifecycle (create_forThree .epoch)
  have hgone : ((forThree .epoch).run departure).Gone ⟨0, 2⟩ :=
    ((hexit [.start, .start] ⟨0, 2⟩).2 (.exit ⟨0, 2⟩)).mpr (.inr ⟨rfl, .unit, rfl⟩)
  obtain ⟨⟨s', hs', hx', hclock⟩, hrefused⟩ := hlife departure 2 _ rfl rfl aftermath
  obtain ⟨u, -, -, -, hu, -, hresult⟩ := (hrefused (.fork ⟨0, 1⟩ ⟨0, 2⟩) (by decide)).2
    (by rintro u (- | ⟨-, - | ⟨-, ⟨⟩⟩⟩) <;> exact ⟨_, rfl⟩) (by decide)
  exact ⟨create_forThree .epoch, hgone, _, s', rfl, rfl, hs', hx', hclock 2, hclock 1, u, hu,
    hresult⟩

end Detector

end RaceWatch
