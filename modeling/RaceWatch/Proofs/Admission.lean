import RaceWatch.Proofs.EpochCheck
import RaceWatch.Proofs.Provenance

/-!
Which operations go through. Before an operation does anything its handles are checked
against the roster of the detector: who has come to be, and who of them has exited. The
clocks have no part in this. An operation that passes these checks succeeds, unless a
thread that has to begin a new event has used up all its clock values. So what becomes of
the operations of a run can be told from the roster, whatever the rule.
-/

namespace RaceWatch

open VectorClock

/-- The threads of a detector as far as the checks of their handles go. -/
structure Roster where
  /-- What its own handles carry. -/
  tag : Nat
  /-- Whether each thread has exited, in the order of their identities. -/
  gone : List Bool
deriving DecidableEq

namespace Roster

/-- Whether the thread of a handle has exited, if the handle is not a foreign one. -/
def status? (r : Roster) (h : Handle) : Option Bool :=
  if h.owner = r.tag ∧ h.thread ≠ noThread then r.gone[coordinateOf h.thread]? else none

def foreign? (r : Roster) (h : Handle) : Option Error :=
  if r.status? h = none then some (.foreignThread h.thread) else none

def exited? (r : Roster) (h : Handle) : Option Error :=
  if r.status? h = some true then some (.threadExited h.thread) else none

def same? (a b : Handle) : Option Error :=
  if a.thread = b.thread then some (.selfSynchronization a.thread) else none

def full? (K : Nat) (r : Roster) : Option Error :=
  if K = 0 ∨ maxThread < K then some (.invalidCapacity K)
  else if K < ownerOf r.gone.length then some (.capacityExceeded K)
  else none

/-- Why a thread that is to act alone is refused. -/
def lone? (r : Roster) (h : Handle) : Option Error := (r.foreign? h).or (r.exited? h)

/-- Why two threads are refused of which the first one is to act. -/
def pair? (r : Roster) (a b : Handle) : Option Error :=
  (((r.foreign? a).or (r.foreign? b)).or (same? a b)).or (r.exited? a)

/-- Why an operation is refused, in the order in which things are looked at. -/
def refusal? (K : Nat) (r : Roster) : Op Handle → Option Error
  | .start => r.full? K
  | .fork p c => (r.pair? p c).or (r.exited? c)
  | .join p c => r.pair? p c
  | .exit t | .acquire _ t | .release _ t | .access t _ => r.lone? t
  | .forgetLock _ | .init _ | .forget _ => none

/-- The roster after an operation that went through. -/
def follow (r : Roster) : Op Handle → Roster
  | .start => { r with gone := r.gone ++ [false] }
  | .exit t => { r with gone := r.gone.set (coordinateOf t.thread) true }
  | .fork .. | .join .. | .acquire .. | .release .. | .forgetLock _ | .access .. | .init _
  | .forget _ => r

variable {K : Nat} {r : Roster} {a b : Handle} {op : Op Handle} {e : Error}

theorem foreign?_eq_none {gone : Bool} (h : r.status? a = some gone) : r.foreign? a = none := by
  simp [foreign?, h]

theorem exited?_eq_none (h : r.status? a = some false) : r.exited? a = none := by
  simp [exited?, h]

theorem lone?_eq_none (h : r.status? a = some false) : r.lone? a = none := by
  rw [lone?, foreign?_eq_none h, exited?_eq_none h, Option.none_or]

theorem pair?_eq_none {gone : Bool} (ha : r.status? a = some false) (hb : r.status? b = some gone)
    (hab : a.thread ≠ b.thread) : r.pair? a b = none := by
  rw [pair?, foreign?_eq_none ha, foreign?_eq_none hb, exited?_eq_none ha, same?, if_neg hab,
    Option.none_or, Option.none_or, Option.none_or]

/-! A refusal is a misuse that the caller can avoid. -/

theorem isFatal_of_foreign? (h : r.foreign? a = some e) : e.isFatal = false := by
  rw [foreign?, Option.ite_none_right_eq_some] at h
  exact Option.some.inj h.2 ▸ rfl

theorem isFatal_of_exited? (h : r.exited? a = some e) : e.isFatal = false := by
  rw [exited?, Option.ite_none_right_eq_some] at h
  exact Option.some.inj h.2 ▸ rfl

theorem isFatal_of_same? (h : same? a b = some e) : e.isFatal = false := by
  rw [same?, Option.ite_none_right_eq_some] at h
  exact Option.some.inj h.2 ▸ rfl

theorem isFatal_of_lone? (h : r.lone? a = some e) : e.isFatal = false := by
  rcases Option.or_eq_some_iff.mp h with h | ⟨-, h⟩
  · exact isFatal_of_foreign? h
  · exact isFatal_of_exited? h

theorem isFatal_of_pair? (h : r.pair? a b = some e) : e.isFatal = false := by
  rcases Option.or_eq_some_iff.mp h with h | ⟨-, h⟩
  · rcases Option.or_eq_some_iff.mp h with h | ⟨-, h⟩
    · rcases Option.or_eq_some_iff.mp h with h | ⟨-, h⟩
      · exact isFatal_of_foreign? h
      · exact isFatal_of_foreign? h
    · exact isFatal_of_same? h
  · exact isFatal_of_exited? h

theorem isFatal_of_refusal? (h : r.refusal? K op = some e) : e.isFatal = false := by
  cases op with
  | start =>
    simp only [refusal?, full?] at h
    split at h
    · exact Option.some.inj h ▸ rfl
    · split at h
      · exact Option.some.inj h ▸ rfl
      · simp at h
  | fork p c =>
    rcases Option.or_eq_some_iff.mp h with h | ⟨-, h⟩
    · exact isFatal_of_pair? h
    · exact isFatal_of_exited? h
  | join p c => exact isFatal_of_pair? h
  | exit t | acquire _ t | release _ t | access t _ => exact isFatal_of_lone? h
  | forgetLock | init | forget => simp [refusal?] at h

end Roster

/-- The thread that an operation has to take into a new event. -/
def Op.ticks? (rule : Rule) : Op Handle → Option Nat
  | .fork p _ => some p.thread
  | .join _ c => some c.thread
  | .release _ t => some t.thread
  | .access t _ => match rule with
    | .epoch => none
    | .precise => some t.thread
  | .start | .exit _ | .acquire .. | .forgetLock _ | .init _ | .forget _ => none

/-! ### The roster of a registry -/

namespace Registry

variable {K : Nat} {r : Registry K} {a b : Handle} {t : Nat} {s s' s₀ : ThreadState K}

def roster (r : Registry K) : Roster := ⟨r.tag, r.threads.map (·.exited)⟩

theorem status?_roster (r : Registry K) (h : Handle) :
    r.roster.status? h = (r.lookup h).toOption.map (·.exited) := by
  by_cases howner : h.owner = r.tag
  · by_cases h0 : h.thread = noThread
    · simp [Roster.status?, roster, lookup, state?, howner, h0, Except.toOption]
    · simp only [Roster.status?, roster, lookup, state?, howner, h0, ne_eq, not_false_eq_true,
        and_self, if_true, if_false, List.getElem?_map]
      cases r.threads[coordinateOf h.thread]? <;> rfl
  · simp [Roster.status?, roster, lookup, howner, Except.toOption]

theorem foreign?_of_error {e : Error} (h : r.lookup a = .error e) :
    r.roster.foreign? a = some e := by
  simp [Roster.foreign?, status?_roster, h, Except.toOption, lookup_eq_error h]

theorem foreign?_of_ok (h : r.lookup a = .ok s) : r.roster.foreign? a = none := by
  simp [Roster.foreign?, status?_roster, h, Except.toOption]

theorem exited?_of_ok (h : r.lookup a = .ok s) (hid : s.id = a.thread) :
    r.roster.exited? a = if s.exited then some (.threadExited s.id) else none := by
  simp [Roster.exited?, status?_roster, h, Except.toOption, hid]

/-- Writing back a thread that has not exited in between. -/
theorem roster_put (h : r.state? t = some s₀) (hid : s.id = t) (hx : s.exited = s₀.exited) :
    (r.put s).roster = r.roster := by
  subst hid
  simp only [state?, ne_noThread_of_state? h, if_false] at h
  obtain ⟨hlt, hget⟩ := List.getElem?_eq_some_iff.mp h
  have hlt' : coordinateOf s.id < (r.threads.map (·.exited)).length := by simpa using hlt
  have hset := List.set_getElem_self hlt'
  rw [List.getElem_map, hget, ← hx] at hset
  rw [roster, put, List.map_set, hset, roster]

theorem roster_put_exit (hid : s.id = t) :
    (r.put s.exit).roster = { r.roster with gone := r.roster.gone.set (coordinateOf t) true } := by
  subst hid
  simp [roster, put, List.map_set, ThreadState.exit]

/-- A handle is refused since it is a foreign one or since its thread has exited, or it is
let in. -/
theorem lone?_cases (hid : ∀ h s, r.lookup h = .ok s → s.id = h.thread) (a : Handle) :
    (∃ e, r.roster.lone? a = some e ∧ r.lookup a = .error e) ∨
      ∃ s, r.lookup a = .ok s ∧
        ((r.roster.lone? a = some (.threadExited s.id) ∧
            s.ensureAlive = .error (.threadExited s.id)) ∨
          r.roster.lone? a = none ∧ s.ensureAlive = .ok ()) := by
  cases ha : r.lookup a with
  | error e => exact .inl ⟨e, by simp [Roster.lone?, foreign?_of_error ha], rfl⟩
  | ok s =>
    simp only [Roster.lone?, foreign?_of_ok ha, exited?_of_ok ha (hid a s ha), Option.none_or]
    refine .inr ⟨s, rfl, ?_⟩
    cases hx : s.exited with
    | true => exact .inl ⟨rfl, by simp [ThreadState.ensureAlive, hx]⟩
    | false => exact .inr ⟨rfl, by simp [ThreadState.ensureAlive, hx]⟩

/-- Both threads are let in, or one of the handles is refused. -/
theorem lookupPair_spec (hid : ∀ h s, r.lookup h = .ok s → s.id = h.thread) (a b : Handle) :
    (∃ e, r.roster.pair? a b = some e ∧ r.lookupPair a b = .error e) ∨
      r.roster.pair? a b = none ∧
        ∃ s s', r.lookup a = .ok s ∧ r.lookup b = .ok s' ∧ a.thread ≠ b.thread ∧
          r.lookupPair a b = .ok (s, s') := by
  cases ha : r.lookup a with
  | error e =>
    refine .inl ⟨e, ?_, ?_⟩
    · simp [Roster.pair?, foreign?_of_error ha]
    · simp [lookupPair, ha, bind, Except.bind]
  | ok s =>
    cases hb : r.lookup b with
    | error e =>
      refine .inl ⟨e, ?_, ?_⟩
      · simp [Roster.pair?, foreign?_of_ok ha, foreign?_of_error hb]
      · simp [lookupPair, ha, hb, bind, Except.bind]
    | ok s' =>
      simp only [Roster.pair?, foreign?_of_ok ha, foreign?_of_ok hb, exited?_of_ok ha (hid a s ha),
        lookupPair, ha, hb, bind, Except.bind, ThreadState.ensureAlive, Roster.same?,
        Option.none_or]
      by_cases hab : a.thread = b.thread
      · exact .inl ⟨.selfSynchronization a.thread, by simp [hab], by simp [hab, throw, throwThe,
          MonadExceptOf.throw]⟩
      · cases hx : s.exited with
        | true => exact .inl ⟨.threadExited s.id, by simp [hab], by simp [hab]⟩
        | false =>
          exact .inr ⟨by simp [hab], s, s', rfl, rfl, hab, by simp [hab, pure, Except.pure]⟩

theorem lookupAlivePair_spec (hid : ∀ h s, r.lookup h = .ok s → s.id = h.thread) (a b : Handle) :
    (∃ e, (r.roster.pair? a b).or (r.roster.exited? b) = some e ∧
        r.lookupAlivePair a b = .error e) ∨
      (r.roster.pair? a b).or (r.roster.exited? b) = none ∧
        ∃ s s', r.lookup a = .ok s ∧ r.lookup b = .ok s' ∧ a.thread ≠ b.thread ∧
          r.lookupAlivePair a b = .ok (s, s') := by
  rcases lookupPair_spec hid a b with ⟨e, he, h⟩ | ⟨hnone, s, s', ha, hb, hab, h⟩
  · exact .inl ⟨e, by simp [he], by simp [lookupAlivePair, h, bind, Except.bind]⟩
  · simp only [hnone, exited?_of_ok hb (hid b s' hb), lookupAlivePair, h, bind, Except.bind,
      ThreadState.ensureAlive, Option.none_or]
    cases hx : s'.exited with
    | true => exact .inl ⟨.threadExited s'.id, rfl, rfl⟩
    | false => exact .inr ⟨rfl, s, s', ha, hb, hab, rfl⟩

end Registry

/-! ### What becomes of an operation -/

namespace Detector

variable {rule : Rule} {K : Nat} {d d' : Detector rule K} {op : Op Handle} {t : Nat}
  {s : ThreadState K} {result : Except (Failure Error) Value}

def roster (d : Detector rule K) : Roster := d.registry.roster

/-- What becomes of an operation. It is refused as a misuse, it goes through, or it is cut
short since the thread that has to begin a new event has used up its clock values. -/
inductive Handled (d : Detector rule K) (op : Op Handle) (d' : Detector rule K)
    (result : Except (Failure Error) Value) : Prop
  | refused {e : Error} (refusal_eq : d.roster.refusal? K op = some e)
      (result_eq : result = .error (.error e)) (roster_eq : d'.roster = d.roster)
  | done {v : Value} (refusal_eq : d.roster.refusal? K op = none)
      (room : ∀ t, op.ticks? rule = some t → d.knowledge.own t < Epoch.maxClock)
      (result_eq : result = .ok v) (roster_eq : d'.roster = d.roster.follow op)
  | overflowed {t : Nat} (refusal_eq : d.roster.refusal? K op = none)
      (ticks : op.ticks? rule = some t) (full : Epoch.maxClock ≤ d.knowledge.own t)
      (result_eq : result = .error (.error (.fatal (.clockOverflow t (d.knowledge.own t)))))
      (roster_eq : d'.roster = d.roster)

theorem Sound.id_of_lookup (hd : d.Sound) (h : Handle) (s : ThreadState K)
    (hs : d.registry.lookup h = .ok s) : s.id = h.thread :=
  (hd.threads _ s (Registry.state?_of_lookup hs)).id_eq

/-- An operation that is refused before it has changed any thread. -/
theorem handled_of_fail {e : Error} {notes : List Note} (hstep : d.step op = .fail d' e notes)
    (hrefusal : d.roster.refusal? K op = some e) (hr : d'.registry = d.registry) :
    d.Handled op (d.step op).state (d.step op).result := by
  rw [hstep]
  exact .refused hrefusal rfl (by rw [roster, Reply.state_fail, hr, roster])

/-- A thread ticks if it has room to do so. -/
theorem Sound.tick_eq (hd : d.Sound) (hs : d.state? t = some s) :
    s.tick = if Epoch.maxClock ≤ d.knowledge.own t then
      .error (.error (.clockOverflow t (d.knowledge.own t))) else .ok s.next := by
  have hsound := hd.threads t s hs
  rw [own_knowledge hs, ← hsound.id_eq]
  exact ThreadState.tick_eq (hsound.id_eq ▸ hsound.fits) hd.capacity

theorem Sound.handled_transfer (hd : d.Sound) {g r : Nat} {giver receiver : ThreadState K}
    (hg : d.state? g = some giver) (hr : d.state? r = some receiver) (hgr : g ≠ r)
    (note : Epoch → Note) (hrefusal : d.roster.refusal? K op = none)
    (hticks : op.ticks? rule = some g) (hfollow : d.roster.follow op = d.roster) :
    d.Handled op { d with registry := (d.registry.transfer giver receiver note).state }
      ((d.registry.transfer giver receiver note).result.map fun () => .unit) := by
  have hgiver := hd.threads g giver hg
  have hreceiver := hd.threads r receiver hr
  have hlearnt : (d.registry.put (receiver.observe giver.clock)).roster = d.registry.roster :=
    Registry.roster_put hr hreceiver.id_eq rfl
  have hg' : (d.registry.put (receiver.observe giver.clock)).state? g = some giver := by
    have hid : (receiver.observe giver.clock).id = r := hreceiver.id_eq
    rw [Registry.state?_put_of_some hr hid, if_neg hgr]
    exact hg
  by_cases hfull : Epoch.maxClock ≤ d.knowledge.own g
  · have htick := (hd.tick_eq hg).trans (if_pos hfull)
    simp only [Registry.transfer, htick, Reply.state_halt, Reply.result_halt]
    exact .overflowed hrefusal hticks hfull rfl hlearnt
  · have htick := (hd.tick_eq hg).trans (if_neg hfull)
    simp only [Registry.transfer, htick, Reply.state_done, Reply.result_done]
    refine .done hrefusal (fun t ht => ?_) rfl ?_
    · obtain rfl := Option.some.inj (hticks.symm.trans ht)
      exact Nat.lt_of_not_le hfull
    · rw [hfollow]
      exact (Registry.roster_put (s := giver.next) hg' hgiver.id_eq rfl).trans hlearnt

theorem Sound.handled_fork (hd : d.Sound) (p c : Handle) :
    d.Handled (.fork p c) (d.step (.fork p c)).state (d.step (.fork p c)).result := by
  rcases Registry.lookupAlivePair_spec hd.id_of_lookup p c with
    ⟨e, he, h⟩ | ⟨hnone, s, s', hp, hc, hpc, h⟩
  · have hstep : d.step (.fork p c) = .fail d e [] := by simp [step, fork, Registry.fork, h]; rfl
    exact handled_of_fail hstep he rfl
  · simp only [step, fork, Registry.fork, h, Reply.state_mapResult, Reply.state_mapState,
      Reply.result_mapResult, Reply.result_mapState]
    exact hd.handled_transfer (Registry.state?_of_lookup hp) (Registry.state?_of_lookup hc) hpc _
      hnone rfl rfl

theorem Sound.handled_join (hd : d.Sound) (p c : Handle) :
    d.Handled (.join p c) (d.step (.join p c)).state (d.step (.join p c)).result := by
  rcases Registry.lookupPair_spec hd.id_of_lookup p c with
    ⟨e, he, h⟩ | ⟨hnone, s, s', hp, hc, hpc, h⟩
  · have hstep : d.step (.join p c) = .fail d e [] := by simp [step, join, Registry.join, h]; rfl
    exact handled_of_fail hstep he rfl
  · simp only [step, join, Registry.join, h, Reply.state_mapResult, Reply.state_mapState,
      Reply.result_mapResult, Reply.result_mapState]
    exact hd.handled_transfer (Registry.state?_of_lookup hc) (Registry.state?_of_lookup hp)
      hpc.symm _ hnone rfl rfl

theorem Sound.handled_exit (hd : d.Sound) (h : Handle) :
    d.Handled (.exit h) (d.step (.exit h)).state (d.step (.exit h)).result := by
  rcases Registry.lone?_cases hd.id_of_lookup h with
    ⟨e, he, hl⟩ | ⟨s, hl, ⟨he, hx⟩ | ⟨hnone, hx⟩⟩
  · have hstep : d.step (.exit h) = .fail d e [] := by
      simp [step, exit, Registry.exit, Registry.lookupAlive, hl, bind, Except.bind]
      rfl
    exact handled_of_fail hstep he rfl
  · have hstep : d.step (.exit h) = .fail d (.threadExited s.id) [] := by
      simp [step, exit, Registry.exit, Registry.lookupAlive, hl, hx, bind, Except.bind]
      rfl
    exact handled_of_fail hstep he rfl
  · simp only [step, exit, Registry.exit, Registry.lookupAlive, hl, hx, bind, Except.bind, pure,
      Except.pure, Reply.state_mapResult, Reply.state_mapState, Reply.result_mapResult,
      Reply.result_mapState, Reply.state_done, Reply.result_done]
    exact .done hnone (by simp [Op.ticks?]) rfl (Registry.roster_put_exit (hd.id_of_lookup h s hl))

theorem Sound.handled_acquire (hd : d.Sound) (lock : Address) (h : Handle) :
    d.Handled (.acquire lock h) (d.step (.acquire lock h)).state
      (d.step (.acquire lock h)).result := by
  rcases Registry.lone?_cases hd.id_of_lookup h with
    ⟨e, he, hl⟩ | ⟨s, hl, hcases⟩
  · have hstep : d.step (.acquire lock h) = .fail d e [] := by simp [step, acquire, hl]; rfl
    exact handled_of_fail hstep he rfl
  · have hs := Registry.state?_of_lookup hl
    have hid := hd.id_of_lookup h s hl
    simp only [step, acquire, hl, LockStore.acquire]
    rcases hcases with ⟨he, hx⟩ | ⟨hnone, hx⟩
    · simp only [hx, Reply.state_mapResult, Reply.state_mapState, Reply.result_mapResult,
        Reply.result_mapState, Reply.state_fail, Reply.result_fail]
      exact .refused he rfl (Registry.roster_put hs hid rfl)
    · simp only [hx, Reply.state_mapResult, Reply.state_mapState, Reply.result_mapResult,
        Reply.result_mapState, Reply.state_done, Reply.result_done]
      exact .done hnone (by simp [Op.ticks?]) rfl
        (Registry.roster_put hs ((ThreadState.id_observe _ _).trans hid) rfl)

theorem Sound.handled_release (hd : d.Sound) (lock : Address) (h : Handle) :
    d.Handled (.release lock h) (d.step (.release lock h)).state
      (d.step (.release lock h)).result := by
  rcases Registry.lone?_cases hd.id_of_lookup h with
    ⟨e, he, hl⟩ | ⟨s, hl, hcases⟩
  · have hstep : d.step (.release lock h) = .fail d e [] := by simp [step, release, hl]; rfl
    exact handled_of_fail hstep he rfl
  · have hs := Registry.state?_of_lookup hl
    have hid := hd.id_of_lookup h s hl
    simp only [step, release, hl, LockStore.release]
    rcases hcases with ⟨he, hx⟩ | ⟨hnone, hx⟩
    · simp only [hx, Reply.state_mapResult, Reply.state_mapState, Reply.result_mapResult,
        Reply.result_mapState, Reply.state_fail, Reply.result_fail]
      exact .refused he rfl (Registry.roster_put hs hid rfl)
    · by_cases hfull : Epoch.maxClock ≤ d.knowledge.own h.thread
      · simp only [hx, (hd.tick_eq hs).trans (if_pos hfull), Reply.state_mapResult,
          Reply.state_mapState, Reply.result_mapResult, Reply.result_mapState, Reply.state_halt,
          Reply.result_halt]
        exact .overflowed hnone rfl hfull rfl (Registry.roster_put hs hid rfl)
      · simp only [hx, (hd.tick_eq hs).trans (if_neg hfull), Reply.state_mapResult,
          Reply.state_mapState, Reply.result_mapResult, Reply.result_mapState, Reply.state_done,
          Reply.result_done]
        refine .done hnone (fun t ht => ?_) rfl (Registry.roster_put (s := s.next) hs hid rfl)
        obtain rfl := Option.some.inj ht
        exact Nat.lt_of_not_le hfull

theorem length_gone (d : Detector rule K) : d.roster.gone.length = d.registry.size := by
  simp [roster, Registry.roster, Registry.size]

theorem refusal?_start (d : Detector rule K) : d.roster.refusal? K .start =
    if K = 0 ∨ maxThread < K then some (.invalidCapacity K)
    else if K < ownerOf d.registry.size then some (.capacityExceeded K) else none := by
  rw [Roster.refusal?, Roster.full?, length_gone]

/-- A thread that is let in is handed the next identity. -/
theorem Sound.register_eq (hd : d.Sound) (h : d.roster.refusal? K .start = none) :
    d.registry.register = .done (d.registry.add (.first (ownerOf d.registry.size)))
      ⟨d.registry.tag, ownerOf d.registry.size⟩ [.registered (ownerOf d.registry.size)] := by
  rw [refusal?_start] at h
  have hcap : ¬ (K = 0 ∨ maxThread < K) := fun hcap => by simp [hcap] at h
  have hfull : ¬ K < ownerOf d.registry.size := fun hfull => by simp [hcap, hfull] at h
  have hfits : Fits K (ownerOf d.registry.size) :=
    ⟨Nat.succ_ne_zero _, Nat.le_of_not_lt hfull⟩
  simp [Registry.register, checkCapacity, hcap, hfull, ThreadState.fresh_eq hfits hd.capacity,
    Registry.add]

theorem Sound.result_start (hd : d.Sound) (h : d.roster.refusal? K .start = none) :
    (d.step .start).result = .ok (.handle ⟨d.roster.tag, ownerOf d.roster.gone.length⟩) := by
  rw [length_gone]
  simp only [step, start, hd.register_eq h, Reply.result_mapResult, Reply.result_mapState,
    Reply.result_done]
  rfl

theorem Sound.handled_start (hd : d.Sound) :
    d.Handled .start (d.step .start).state (d.step .start).result := by
  have hrefusal := d.refusal?_start
  by_cases hcap : K = 0 ∨ maxThread < K
  · have hstep : d.step .start = .fail d (.invalidCapacity K) [] := by
      simp [step, start, Registry.register, checkCapacity, hcap]
      rfl
    exact handled_of_fail hstep (by rw [hrefusal, if_pos hcap]) rfl
  rw [if_neg hcap] at hrefusal
  by_cases hfull : K < ownerOf d.registry.size
  · have hstep : d.step .start = .fail d (.capacityExceeded K) [] := by
      simp [step, start, Registry.register, checkCapacity, hcap, hfull]
      rfl
    exact handled_of_fail hstep (by rw [hrefusal, if_pos hfull]) rfl
  rw [if_neg hfull] at hrefusal
  refine .done hrefusal (by simp [Op.ticks?]) (hd.result_start hrefusal) ?_
  simp only [step, start, hd.register_eq hrefusal, Reply.state_mapResult, Reply.state_mapState,
    Reply.state_done]
  simp [roster, Registry.roster, Registry.add, Roster.follow, ThreadState.first]

end Detector

/-! ### Checks that go through -/

/-- What the check of a rule relies on. -/
def Rule.InRange {K : Nat} : (rule : Rule) → rule.History K → Prop
  | .epoch, h => EpochHistory.InRange h
  | .precise, _ => True

theorem PreciseHistory.check_of_tick {K : Nat} (h : PreciseHistory K) {s s' : ThreadState K}
    (ht : s.tick = .ok s') (a : Access) : ∃ f, h.check s a = .ok f ∧ f.thread = s' :=
  ⟨_, by simp only [check, ht, bind, Except.bind, pure, Except.pure]; rfl, rfl⟩

theorem PreciseHistory.check_of_tick_error {K : Nat} (h : PreciseHistory K) {s : ThreadState K}
    {e : Failure Fatal} (ht : s.tick = .error e) (a : Access) : h.check s a = .error e := by
  simp [check, ht, bind, Except.bind]

/-- The check of an access goes through if the history names threads with a coordinate only, and so
does the thread itself. What alone can fail is the tick that the precise rule begins with, in a
thread that has no room for a new event, and then nothing has been compared or reported yet. -/
theorem Rule.check_total {rule : Rule} {K : Nat} {h : rule.History K} {s : ThreadState K}
    (hh : rule.InRange h) (hid : Fits K s.id) (hK : K ≤ maxThread) (a : Access) :
    (∃ f, rule.check h s a = .ok f ∧ f.thread.id = s.id ∧ f.thread.exited = s.exited ∧
        (rule = .precise → s.clock.time s.id < Epoch.maxClock)) ∨
      rule = .precise ∧ Epoch.maxClock ≤ s.clock.time s.id ∧
        s.tick = .error (.error (.clockOverflow s.id (s.clock.time s.id))) ∧
        rule.check h s a = .error (.error (.clockOverflow s.id (s.clock.time s.id))) := by
  cases rule with
  | epoch =>
    obtain ⟨note, hf⟩ := EpochHistory.InRange.check_eq hh hid a
    exact .inl ⟨_, hf, rfl, rfl, by simp⟩
  | precise =>
    have htick := ThreadState.tick_eq hid hK
    by_cases hfull : Epoch.maxClock ≤ s.clock.time s.id
    · rw [if_pos hfull] at htick
      exact .inr ⟨rfl, hfull, htick, PreciseHistory.check_of_tick_error h htick a⟩
    · rw [if_neg hfull] at htick
      obtain ⟨f, hf, hthread⟩ := PreciseHistory.check_of_tick h htick a
      exact .inl ⟨f, hf, by rw [hthread]; rfl, by rw [hthread]; rfl,
        fun _ => Nat.lt_of_not_le hfull⟩

namespace Detector

variable {rule : Rule} {K : Nat} {d : Detector rule K} {config : Config} {tag : Nat}

theorem Sound.handled_access (hd : d.Sound) (h : Handle) (a : Access)
    (hrange : rule.InRange (d.entryOf a.address).history) :
    d.Handled (.access h a) (d.step (.access h a)).state (d.step (.access h a)).result := by
  rcases Registry.lone?_cases hd.id_of_lookup h with
    ⟨e, he, hl⟩ | ⟨s, hl, hcases⟩
  · have hstep : d.step (.access h a) = .fail d e [] := by simp [step, access, hl]; rfl
    exact handled_of_fail hstep he rfl
  · have hs := Registry.state?_of_lookup hl
    have hid := hd.id_of_lookup h s hl
    simp only [step, access, hl]
    rcases hcases with ⟨he, hx⟩ | ⟨hnone, hx⟩
    · simp only [hx, Reply.state_mapResult, Reply.result_mapResult, Reply.state_fail,
        Reply.result_fail]
      exact .refused he rfl rfl
    · have htotal := Rule.check_total hrange (hd.threads _ s hs).fits_id hd.capacity a
      rw [hid, ← own_knowledge hs] at htotal
      rcases htotal with ⟨f, hf, hfid, hfx, hroom⟩ | ⟨rfl, hfull, -, hf⟩
      · have hf : rule.check (d.shadow.getD a.address (.neutral a.address)).history s a = .ok f :=
          hf
        simp only [hx, Entry.check, hf, bind, Except.bind, pure, Except.pure,
          Reply.state_mapResult, Reply.result_mapResult, Reply.state_done, Reply.result_done]
        refine .done hnone (fun t ht => ?_) rfl
          (Registry.roster_put (s := f.thread) hs hfid hfx)
        cases rule with
        | epoch => simp [Op.ticks?] at ht
        | precise =>
          obtain rfl := Option.some.inj ht
          exact hroom rfl
      · have hf : Rule.check .precise (d.shadow.getD a.address (.neutral a.address)).history s a =
          .error (.error (.clockOverflow h.thread (d.knowledge.own h.thread))) := hf
        simp only [hx, Entry.check, hf, bind, Except.bind, Reply.state_mapResult,
          Reply.result_mapResult, Reply.state_halt, Reply.result_halt]
        exact .overflowed hnone rfl hfull rfl rfl

/-- What becomes of an operation can be told from the roster and the clock values that
are left. -/
theorem Sound.handled_step (hd : d.Sound) (op : Op Handle)
    (hrange : ∀ x, rule.InRange (d.entryOf x).history) :
    d.Handled op (d.step op).state (d.step op).result := by
  cases op with
  | start => exact hd.handled_start
  | fork p c => exact hd.handled_fork p c
  | join p c => exact hd.handled_join p c
  | exit h => exact hd.handled_exit h
  | acquire lock h => exact hd.handled_acquire lock h
  | release lock h => exact hd.handled_release lock h
  | access h a => exact hd.handled_access h a (hrange a.address)
  | forgetLock lock | init x | forget x => exact .done rfl (by simp [Op.ticks?]) rfl rfl

theorem inRange_entryOf (h : create rule K config tag = .ok d) (ops : List (Op Handle)) (n : Nat)
    (x : Address) : rule.InRange ((d.after ops n).entryOf x).history := by
  cases rule with
  | epoch => exact (leaves_entryOf h ops x n).epochTrace.inRange
  | precise => trivial

theorem handled_after (h : create rule K config tag = .ok d) (ops : List (Op Handle)) (n : Nat)
    (op : Op Handle) :
    (d.after ops n).Handled op ((d.after ops n).step op).state
      ((d.after ops n).step op).result :=
  (sound_after h ops n).handled_step op (inRange_entryOf h ops n)

theorem handled_run (h : create rule K config tag = .ok d) (ops : List (Op Handle))
    (op : Op Handle) :
    (d.run ops).Handled op ((d.run ops).step op).state ((d.run ops).step op).result := by
  rw [← after_length]
  exact handled_after h ops ops.length op

theorem overflowed_of_not_fatal {op : Op Handle} {e : Error} (h : e.isFatal = false) :
    (⟨op, .error (.error e)⟩ : Event).overflowed = false := by
  cases e with
  | fatal => simp [Error.isFatal] at h
  | invalidCapacity | capacityExceeded | threadExited | foreignThread | selfSynchronization => rfl

/-- Only an operation that takes a thread into a new event can run out of clock values. -/
theorem Handled.not_overflowed {d' : Detector rule K} {op : Op Handle}
    {result : Except (Failure Error) Value} (h : d.Handled op d' result)
    (hticks : op.ticks? rule = none) : (⟨op, result⟩ : Event).overflowed = false := by
  cases h with
  | refused hrefusal hresult =>
    subst hresult
    exact overflowed_of_not_fatal (Roster.isFatal_of_refusal? hrefusal)
  | done _ _ hresult =>
    subst hresult
    rfl
  | overflowed _ ht => simp [hticks] at ht

end Detector

end RaceWatch
