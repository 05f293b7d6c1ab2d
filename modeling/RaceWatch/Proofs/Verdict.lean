import RaceWatch.Proofs.Parts

/-!
What an operation hands back and what comes to be kept by it. Both can be told from the roster
and from which locks and locations are kept already, apart from an operation that is cut short.
The rule, the options and the clocks have no part in it.
-/

namespace RaceWatch

open VectorClock

/-- Whether a lock is kept after an operation, from whether it was before. A thread that has
exited still makes its detector keep the lock, one of another detector does not. -/
def Op.keepsLock (r : Roster) (lock : Address) (kept : Bool) : Op Handle → Bool
  | .acquire l t | .release l t => kept || (l == lock && (r.status? t).isSome)
  | .forgetLock l => kept && l != lock
  | .start | .fork .. | .join .. | .exit _ | .access .. | .init _ | .forget _ => kept

/-- Whether a location is monitored after an operation, from whether it was before. -/
def Op.keepsLocation (r : Roster) (x : Address) (kept : Bool) : Op Handle → Bool
  | .access t a => kept || (a.address == x && (r.status? t).isSome)
  | .init y => kept || y == x
  | .forget y => kept && y != x
  | .start | .fork .. | .join .. | .exit _ | .acquire .. | .release .. | .forgetLock _ => kept

theorem LockStore.isSome_clock?_touch {K : Nat} (s : LockStore K) (lock l : Address) :
    ((s.touch lock).clock? l).isSome = ((s.clock? l).isSome || lock == l) := by
  rw [clock?_touch]
  by_cases h : lock = l
  · simp [h]
  · simp [h]

theorem LockStore.isSome_clock?_publish {K : Nat} (s : LockStore K) (lock l : Address)
    (c : VectorClock K) :
    ((s.publish lock c).clock? l).isSome = ((s.clock? l).isSome || lock == l) := by
  rw [clock?_publish]
  by_cases h : lock = l
  · simp [h]
  · simp [h]

theorem ShadowMemory.isSome_get?_monitor {ε : Type} (m : ShadowMemory ε) (x y : Address)
    (neutral : ε) : ((m.monitor x neutral).get? y).isSome = ((m.get? y).isSome || x == y) := by
  rw [get?_monitor]
  by_cases h : x = y
  · simp [h]
  · simp [h]

namespace Detector

variable {rule : Rule} {K : Nat} {d d' : Detector rule K} {op : Op Handle} {t : Handle}

theorem isSome_status?_of_lookup {s : ThreadState K} (h : d.registry.lookup t = .ok s) :
    (d.roster.status? t).isSome = true := by
  rw [roster, Registry.status?_roster, h]
  rfl

theorem isSome_status?_of_lookup_error {e : Error} (h : d.registry.lookup t = .error e) :
    (d.roster.status? t).isSome = false := by
  rw [roster, Registry.status?_roster, h]
  rfl

/-! ### What comes to be kept -/

theorem isSome_lockClock?_step (d : Detector rule K) (op : Op Handle) (lock : Address) :
    ((d.step op).state.lockClock? lock).isSome =
      op.keepsLock d.roster lock (d.lockClock? lock).isSome := by
  cases op with
  | start | fork | join | exit | access | init | forget =>
    rw [lockClock?_step_of_ne _ (by simp [Op.lock?])]
    rfl
  | acquire l t =>
    simp only [step, acquire, Reply.state_mapResult, Op.keepsLock]
    cases hl : d.registry.lookup t with
    | error e => simp [isSome_status?_of_lookup_error hl]
    | ok s =>
      simp only [isSome_status?_of_lookup hl, Bool.and_true, Reply.state_mapState,
        LockStore.acquire]
      cases s.ensureAlive <;> exact LockStore.isSome_clock?_touch _ _ _
  | release l t =>
    simp only [step, release, Reply.state_mapResult, Op.keepsLock]
    cases hl : d.registry.lookup t with
    | error e => simp [isSome_status?_of_lookup_error hl]
    | ok s =>
      simp only [isSome_status?_of_lookup hl, Bool.and_true, Reply.state_mapState,
        LockStore.release]
      cases s.ensureAlive with
      | error e => exact LockStore.isSome_clock?_touch _ _ _
      | ok =>
        cases htick : s.tick with
        | error f =>
          simp only [Reply.state_halt]
          exact LockStore.isSome_clock?_publish _ _ _ _
        | ok s' => exact LockStore.isSome_clock?_publish _ _ _ _
  | forgetLock l =>
    simp only [Op.keepsLock, lockClock?]
    have hforget : (d.step (.forgetLock l)).state.locks.clock? lock = _ :=
      LockStore.clock?_forget d.locks l lock
    rw [hforget]
    by_cases hl : l = lock
    · simp [hl]
    · simp [hl]

theorem isSome_entryAt?_step (d : Detector rule K) (op : Op Handle) (x : Address) :
    ((d.step op).state.entryAt? x).isSome =
      op.keepsLocation d.roster x (d.entryAt? x).isSome := by
  cases op with
  | start | fork | join | exit | acquire | release | forgetLock =>
    rw [entryAt?_step_of_ne _ (by simp [Op.location?])]
    rfl
  | init y => exact ShadowMemory.isSome_get?_monitor _ _ _ _
  | forget y =>
    simp only [Op.keepsLocation, entryAt?]
    have hforget : (d.step (.forget y)).state.shadow.get? x = _ :=
      ShadowMemory.get?_forget d.shadow y x
    rw [hforget]
    by_cases hy : y = x
    · simp [hy]
    · simp [hy]
  | access t a =>
    have hmonitor := ShadowMemory.isSome_get?_monitor d.shadow a.address x (.neutral a.address)
    simp only [step, access, Reply.state_mapResult, Op.keepsLocation]
    cases hl : d.registry.lookup t with
    | error e => simp [isSome_status?_of_lookup_error hl]
    | ok s =>
      simp only [isSome_status?_of_lookup hl, Bool.and_true]
      cases s.ensureAlive with
      | error e => exact hmonitor
      | ok =>
        dsimp only
        cases (d.shadow.getD a.address (.neutral a.address)).check d.config s a with
        | error f =>
          rw [Reply.state_halt]
          exact hmonitor
        | ok checked =>
          -- The entry is put where the location has just come to be monitored.
          refine Eq.trans ?_ hmonitor
          simp only [Reply.state_done, entryAt?, ShadowMemory.get?_put]
          split
          · next hx => simp [ShadowMemory.get?_monitor, hx]
          · rfl

/-! ### What is handed back -/

theorem Sound.refusal?_start (hd : d.Sound) (hcap : K ≠ 0) : d.roster.refusal? K .start =
    if K < ownerOf d.registry.size then some (.capacityExceeded K) else none := by
  have := hd.capacity
  rw [Detector.refusal?_start, if_neg (by omega)]

theorem Sound.state_step_start (hd : d.Sound) (h : d.roster.refusal? K .start = none) :
    (d.step .start).state =
      { d with registry := d.registry.add (.first (ownerOf d.registry.size)) } := by
  simp only [step, start, hd.register_eq h]
  rfl

/-- What an operation hands back if it goes through. -/
def value (d : Detector rule K) : Op Handle → Value
  | .start => .handle ⟨d.roster.tag, ownerOf d.roster.gone.length⟩
  | .forgetLock lock => .flag (d.lockClock? lock).isSome
  | .init x => .flag !(d.entryAt? x).isSome
  | .forget x => .flag (d.entryAt? x).isSome
  | .fork .. | .join .. | .exit _ | .acquire .. | .release .. | .access .. => .unit

theorem Sound.value_eq (hd : d.Sound) (hrefusal : d.roster.refusal? K op = none) {v : Value}
    (hv : (d.step op).result = .ok v) : v = d.value op := by
  have hunit (r : Except (Failure Error) Unit) (h : (r.map fun () => Value.unit) = .ok v) :
      v = .unit := by
    cases r with
    | error f => simp [Except.map] at h
    | ok u => exact (Except.ok.inj h).symm
  cases op with
  | start => exact Except.ok.inj (hv.symm.trans (hd.result_start hrefusal))
  | fork | join | exit | acquire | release | access => exact hunit _ hv
  | forgetLock lock =>
    have hforget := LockStore.result_forget d.locks lock
    simp only [step, forgetLock, Reply.result_mapResult, Reply.result_mapState, hforget] at hv
    exact (Except.ok.inj hv).symm
  | init x =>
    have hinit := ShadowMemory.result_init d.shadow x (.neutral x)
    simp only [step, init, Reply.result_mapResult, Reply.result_mapState, hinit] at hv
    exact (Except.ok.inj hv).symm
  | forget x =>
    have hforget := ShadowMemory.result_forget d.shadow x
    simp only [step, forget, Reply.result_mapResult, Reply.result_mapState, hforget] at hv
    exact (Except.ok.inj hv).symm

/-- An operation that does not run out of clock values is refused, or it goes through and
hands back what the roster and what is kept say. -/
theorem Sound.result_eq_of_not_overflowed (hd : d.Sound)
    (h : d.Handled op (d.step op).state (d.step op).result)
    (ho : (⟨op, (d.step op).result⟩ : Event).overflowed = false) :
    (d.step op).result =
        (d.roster.refusal? K op).elim (.ok (d.value op)) (fun e => .error (.error e)) ∧
      (d.step op).state.roster =
        if d.roster.refusal? K op = none then d.roster.follow op else d.roster := by
  cases h with
  | refused hrefusal hresult hroster => simp [hrefusal, hresult, hroster]
  | done hrefusal _ hresult hroster =>
    simp [hrefusal, hresult, hroster, hd.value_eq hrefusal hresult]
  | overflowed _ _ _ hresult => simp [Event.overflowed, hresult] at ho

end Detector

end RaceWatch
