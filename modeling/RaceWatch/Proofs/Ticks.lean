import RaceWatch.Proofs.Admission

/-!
How far a thread has got. A thread starts in its first event and is taken into a new one by
each of its operations that hands knowledge on, and under the precise rule by each of its
accesses. Nothing else moves its own coordinate, since nobody knows more of the thread than
the thread itself. So the coordinate counts these operations, and the only fatal error that
there is comes from a thread that has used up all its clock values.
-/

namespace RaceWatch

open VectorClock

namespace Event

/-- The thread that an operation took into a new event. -/
def ticked? (rule : Rule) (e : Event) : Option Nat :=
  if e.succeeded then e.op.ticks? rule else none

variable {rule : Rule} {e : Event} {t : Nat}

theorem succeeded_of_ticker? (h : e.ticker? rule = some t) : e.succeeded = true := by
  cases hr : e.result with
  | ok v => simp [succeeded, hr]
  | error f => cases hop : e.op <;> simp [ticker?, hr, hop] at h

/-- A thread that begins a new event has come to be just now or is taken into it. -/
theorem ticker?_eq_ticked? (h : e.op ≠ .start) : e.ticker? rule = e.ticked? rule := by
  cases hr : e.result <;> cases hop : e.op <;> cases rule <;>
    simp_all [ticker?, ticked?, succeeded, Op.ticks?]

theorem ticked?_of_start (h : e.op = .start) : e.ticked? rule = none := by
  simp [ticked?, h, Op.ticks?]

end Event

/-- A thread that an operation takes into a new event is one that it names. -/
theorem Op.exists_mem_threads {rule : Rule} {op : Op Handle} {t : Nat}
    (h : op.ticks? rule = some t) : ∃ u ∈ op.threads, u.thread = t := by
  cases op <;> cases rule <;> simp_all [Op.ticks?, Op.threads]

/-- How many of some operations took a thread into a new event. -/
def Chronicle.ticks (rule : Rule) (H : Chronicle) (t : Nat) : Nat :=
  H.countP fun e => e.ticked? rule == some t

theorem Chronicle.ticks_concat (rule : Rule) (H : Chronicle) (e : Event) (t : Nat) :
    (H ++ [e]).ticks rule t = H.ticks rule t + if e.ticked? rule = some t then 1 else 0 := by
  simp [ticks, List.countP_append, List.countP_singleton]

namespace Knowledge

variable {K : Nat} {rule : Rule} {k : Knowledge K} {e : Event}

/-- What an operation passes on never moves a thread by its own coordinate. -/
theorem Owned.own_pass (h : k.Owned) (op : Op Handle) (t : Nat) : (k.pass op).own t = k.own t := by
  refine Nat.le_antisymm ?_ (time_mono (k.thread_le_pass op t) t)
  rcases k.time_pass_le op (.thread t) t with hle | ⟨source, -, -, hle⟩
  · exact hle
  · exact hle.trans (h source t)

theorem own_tick? {t? : Option Nat} (hfits : ∀ t, t? = some t → Fits K t) (t : Nat) :
    (k.tick? t?).own t = k.own t + if t? = some t then 1 else 0 := by
  cases t? with
  | none => simp [tick?]
  | some u =>
    simp only [own, tick?, tick, Option.some.injEq]
    by_cases hu : u = t
    · subst hu
      rw [replace_target, time_advance_self (hfits u rfl), if_pos rfl]
    · rw [replace_of_ne _ _ (by simpa using Ne.symm hu), if_neg hu, Nat.add_zero]

/-- An operation advances the coordinate of the thread that begins a new event, by one, and
that of no other thread. -/
theorem Owned.own_follow (h : k.Owned) (ha : e.effective = true → k.Admits rule e) (t : Nat) :
    (k.follow rule e).own t = k.own t + if e.ticker? rule = some t then 1 else 0 := by
  cases heff : e.effective with
  | false =>
    have hnone : e.ticker? rule ≠ some t := fun hticker => by
      simp [Event.effective_of_succeeded (Event.succeeded_of_ticker? hticker)] at heff
    rw [follow_of_not_effective heff, if_neg hnone, Nat.add_zero]
  | true => rw [follow_of_effective heff, own_tick? (ha heff).fits, h.own_pass]

end Knowledge

namespace Detector

variable {rule : Rule} {K : Nat} {d : Detector rule K} {config : Config} {tag t : Nat}
  {op : Op Handle} {h : Handle}

theorem exists_state_of_own_pos (h : 0 < d.knowledge.own t) : ∃ s, d.state? t = some s := by
  cases hs : d.state? t with
  | some s => exact ⟨s, rfl⟩
  | none => simp [own_knowledge_of_none hs] at h

/-- An operation advances the coordinate of the thread that begins a new event, by one. -/
theorem Sound.own_step (hd : d.Sound) (op : Op Handle) (t : Nat) :
    (d.step op).state.knowledge.own t = d.knowledge.own t +
      if (⟨op, (d.step op).result⟩ : Event).ticker? rule = some t then 1 else 0 := by
  have hfollows := hd.follows_step op
  rw [hfollows.knowledge_eq, hd.owned.own_follow hfollows.admits]

/-- A thread that comes to be has not been known before. -/
theorem Sound.own_of_start (hd : d.Sound) {v : Value} (hv : (d.step .start).result = .ok v)
    (ht : (⟨.start, .ok v⟩ : Event).ticker? rule = some t) : d.knowledge.own t = 0 := by
  have hresult : (d.step .start).result =
      .ok (.handle ⟨d.roster.tag, ownerOf d.roster.gone.length⟩) := by
    have hhandled := hd.handled_start
    rw [hv] at hhandled
    cases hhandled with
    | refused _ hresult => simp at hresult
    | done hrefusal => exact hd.result_start hrefusal
    | overflowed _ _ _ hresult => simp at hresult
  obtain rfl := Except.ok.inj (hv.symm.trans hresult)
  obtain rfl := Option.some.inj ht
  rw [length_gone]
  exact own_knowledge_of_none d.registry.state?_ownerOf_size

/-- The own coordinate of a thread that has come to be is one more than the number of times
that it was taken into a new event. One that has not come to be was never taken anywhere. -/
theorem ticks_after (h : create rule K config tag = .ok d) (ops : List (Op Handle)) (n t : Nat) :
    Chronicle.ticks rule ((d.chronicle ops).take n) t = (d.after ops n).knowledge.own t - 1 := by
  induction n with
  | zero => simp [Chronicle.ticks, knowledge_create h, Knowledge.own]
  | succ n ih =>
    have hevent := getElem?_chronicle d ops n
    cases hop : ops[n]? with
    | none =>
      rw [hop, Option.map_none] at hevent
      rw [List.take_add_one, hevent, Option.toList_none, List.append_nil, ih,
        after_succ_of_none d hop]
    | some op =>
      rw [hop, Option.map_some] at hevent
      have hsound := sound_after h ops n
      have hfollows := hsound.follows_step op
      rw [List.take_add_one, hevent, Option.toList_some, Chronicle.ticks_concat, ih,
        after_succ d hop, hsound.own_step]
      by_cases hstart : op = .start
      · subst hstart
        rw [Event.ticked?_of_start rfl, if_neg (by simp), Nat.add_zero]
        split
        · next hticker =>
          -- The new thread was at 0 before.
          obtain ⟨v, hv⟩ := Event.exists_ok_of_succeeded (Event.succeeded_of_ticker? hticker)
          rw [hsound.own_of_start hv (hv ▸ hticker)]
        · rw [Nat.add_zero]
      · rw [Event.ticker?_eq_ticked? hstart]
        split
        · next hticked =>
          have hs := Event.succeeded_of_ticker? ((Event.ticker?_eq_ticked? hstart).trans hticked)
          rw [Event.ticked?, if_pos hs] at hticked
          obtain ⟨u, hu, rfl⟩ := Op.exists_mem_threads hticked
          have hpos := (hfollows.admits (Event.effective_of_succeeded hs)).known u hu
          omega
        · rfl

/-! ### The checks that an operation makes -/

/-- The thread of a handle is one of the detector's own. -/
def Knows (d : Detector rule K) (h : Handle) : Prop := ∃ s, d.registry.lookup h = .ok s

/-- The thread of a handle is one of the detector's own and has not exited. -/
def Live (d : Detector rule K) (h : Handle) : Prop :=
  ∃ s, d.registry.lookup h = .ok s ∧ s.exited = false

/-- The handles of an operation pass all checks: the detector knows them, those of a fork or
a join are of different threads, and the threads have not exited, a joined one excepted. -/
def LetsIn (d : Detector rule K) : Op Handle → Prop
  | .fork p c => d.Live p ∧ d.Live c ∧ p.thread ≠ c.thread
  | .join p c => d.Live p ∧ d.Knows c ∧ p.thread ≠ c.thread
  | .exit t | .acquire _ t | .release _ t | .access t _ => d.Live t
  | .start | .forgetLock _ | .init _ | .forget _ => True

theorem Live.status?_eq (h' : d.Live h) : d.roster.status? h = some false := by
  obtain ⟨s, hs, hx⟩ := h'
  simp [roster, Registry.status?_roster, hs, Except.toOption, hx]

theorem Knows.status?_eq (h' : d.Knows h) : ∃ gone, d.roster.status? h = some gone := by
  obtain ⟨s, hs⟩ := h'
  exact ⟨s.exited, by simp [roster, Registry.status?_roster, hs, Except.toOption]⟩

/-- An operation whose handles pass all checks is not refused. -/
theorem LetsIn.refusal?_eq_none (h : d.LetsIn op) (hstart : op ≠ .start) :
    d.roster.refusal? K op = none := by
  cases op with
  | start => exact absurd rfl hstart
  | fork p c =>
    obtain ⟨hp, hc, hpc⟩ := h
    rw [Roster.refusal?, Roster.pair?_eq_none hp.status?_eq hc.status?_eq hpc,
      Roster.exited?_eq_none hc.status?_eq, Option.none_or]
  | join p c =>
    obtain ⟨hp, hc, hpc⟩ := h
    obtain ⟨gone, hgone⟩ := hc.status?_eq
    exact Roster.pair?_eq_none hp.status?_eq hgone hpc
  | exit t | acquire _ t | release _ t | access t _ => exact Roster.lone?_eq_none h.status?_eq
  | forgetLock | init | forget => rfl

/-- A fatal error comes from a thread that has used up its clock values and would have to
begin a new event. -/
theorem Sound.spent_of_fatal (hd : d.Sound) {d' : Detector rule K} {f : Fatal}
    (hhandled : d.Handled op d' (.error (.error (.fatal f)))) :
    ∃ t s, op.ticks? rule = some t ∧ d.state? t = some s ∧ s.clock.time t = Epoch.maxClock ∧
      f = .clockOverflow t Epoch.maxClock := by
  cases hhandled with
  | refused hrefusal hresult =>
    injection hresult with hresult
    injection hresult with hresult
    have hfatal := Roster.isFatal_of_refusal? hrefusal
    simp [← hresult, Error.isFatal] at hfatal
  | done _ _ hresult => simp at hresult
  | @overflowed t _ hticks hfull hresult =>
    obtain ⟨s, hs⟩ := exists_state_of_own_pos (lt_of_lt_of_le (by decide) hfull)
    have hown := own_knowledge hs
    rw [hown] at hfull hresult
    have hmax := Nat.le_antisymm (hd.threads t s hs).time_le hfull
    rw [hmax] at hresult
    injection hresult with hresult
    injection hresult with hresult
    injection hresult with hresult
    exact ⟨t, s, hticks, hs, hmax, hresult⟩

/-- An operation whose handles pass all checks runs out of clock values exactly if it has to
take a thread into a new event that is in its last one. -/
theorem Sound.overflowed_iff (hd : d.Sound) (hin : d.LetsIn op)
    (hhandled : d.Handled op (d.step op).state (d.step op).result) :
    (∃ t v, (d.step op).result = .error (.error (.fatal (.clockOverflow t v)))) ↔
      ∃ t s, op.ticks? rule = some t ∧ d.state? t = some s ∧
        s.clock.time t = Epoch.maxClock := by
  constructor
  · rintro ⟨t, v, hr⟩
    rw [hr] at hhandled
    obtain ⟨u, s, hticks, hs, hmax, -⟩ := hd.spent_of_fatal hhandled
    exact ⟨u, s, hticks, hs, hmax⟩
  · rintro ⟨t, s, hticks, hs, hmax⟩
    have hstart : op ≠ .start := by
      rintro rfl
      simp [Op.ticks?] at hticks
    have hown := own_knowledge hs
    cases hhandled with
    | refused hrefusal => simp [hin.refusal?_eq_none hstart] at hrefusal
    | done _ hroom =>
      have hlt := hroom t hticks
      rw [hown, hmax] at hlt
      exact absurd hlt (Nat.lt_irrefl _)
    | overflowed _ _ _ hresult => exact ⟨_, _, hresult⟩

/-- The only fatal error is that a thread has used up its clock values, and this comes about
exactly when it has to. No operation panics, and none finds a thread or an epoch that has no
coordinate. The own coordinate of a thread is one more than the number of the operations
that took it into a new event. It fits into an epoch. An operation whose handles pass all
checks runs out of clock values exactly if the thread that it has to take into a new event
is at the last one that fits. Accesses under the epoch rule take no thread into a new event
and always succeed. -/
theorem fatal_iff_last_event (h : create rule K config tag = .ok d) (ops : List (Op Handle)) :
    (∀ op p, ((d.run ops).step op).result ≠ .error (.panic p)) ∧
    (∀ op f, ((d.run ops).step op).result = .error (.error (.fatal f)) →
      ∃ t, f = .clockOverflow t Epoch.maxClock) ∧
    (∀ t s, (d.run ops).state? t = some s →
      s.clock.time t = 1 + (d.chronicle ops).ticks rule t ∧ s.clock.time t ≤ Epoch.maxClock) ∧
    (∀ op, (d.run ops).LetsIn op →
      ((∃ t v, ((d.run ops).step op).result = .error (.error (.fatal (.clockOverflow t v)))) ↔
        ∃ t s, op.ticks? rule = some t ∧ (d.run ops).state? t = some s ∧
          s.clock.time t = Epoch.maxClock)) ∧
    (rule = .epoch → ∀ t a, (d.run ops).Live t →
      ((d.run ops).step (.access t a)).result = .ok .unit) := by
  have hsound := sound_run h ops
  refine ⟨fun op p hp => ?_, fun op f hf => ?_, fun t s hs => ⟨?_, ?_⟩, fun op hin => ?_,
    fun hrule t a ht => ?_⟩
  · cases handled_run h ops op with
    | refused _ hresult | done _ _ hresult | overflowed _ _ _ hresult => simp [hresult] at hp
  · have hhandled := handled_run h ops op
    rw [hf] at hhandled
    obtain ⟨t, -, -, -, -, hoverflow⟩ := hsound.spent_of_fatal hhandled
    exact ⟨t, hoverflow⟩
  · have hticks := ticks_after h ops ops.length t
    have hpos := hsound.own_pos hs
    rw [← d.length_chronicle ops, List.take_length, d.length_chronicle, after_length] at hticks
    rw [own_knowledge hs] at hticks hpos
    omega
  · exact (hsound.threads t s hs).time_le
  · exact hsound.overflowed_iff hin (handled_run h ops op)
  · subst hrule
    have hin : (d.run ops).LetsIn (.access t a) := ht
    rcases (d.run ops).access_cases t a with ⟨⟨error, herror⟩, -⟩ | ⟨hr, -⟩
    · cases handled_run h ops (.access t a) with
      | refused hrefusal => simp [hin.refusal?_eq_none (by simp)] at hrefusal
      | done _ _ hresult => simp [hresult] at herror
      | overflowed _ hticks => simp [Op.ticks?] at hticks
    · exact hr

/-- Before the last access of the run, whose thread is let in and has room for it. -/
theorem last_event_relay : ∃ s, ((forThree .precise).run relay).state? 2 = some s ∧
    s.clock.time 2 = 1 + ((forThree .precise).chronicle relay).ticks .precise 2 ∧
    ((forThree .precise).run relay).LetsIn (.access ⟨0, 2⟩ ⟨7, .read⟩) ∧
    ((∃ t v, (((forThree .precise).run relay).step (.access ⟨0, 2⟩ ⟨7, .read⟩)).result =
        .error (.error (.fatal (.clockOverflow t v)))) ↔
      ∃ t s, (Op.access ⟨0, 2⟩ ⟨7, .read⟩).ticks? .precise = some t ∧
        ((forThree .precise).run relay).state? t = some s ∧
          s.clock.time t = Epoch.maxClock) := by
  obtain ⟨-, -, hown, hoverflow, -⟩ := fatal_iff_last_event (create_forThree .precise) relay
  obtain ⟨s, hs⟩ : ∃ s, ((forThree .precise).run relay).state? 2 = some s := ⟨_, rfl⟩
  have hin : ((forThree .precise).run relay).LetsIn (.access ⟨0, 2⟩ ⟨7, .read⟩) :=
    ⟨_, rfl, rfl⟩
  exact ⟨s, hs, (hown 2 s hs).1, hin, hoverflow _ hin⟩

end Detector

end RaceWatch
