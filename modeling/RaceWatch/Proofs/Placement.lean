import RaceWatch.Proofs.Admission

/-!
The threads that a detector names. Every thread goes by the identity of its position, which is
within the capacity, and the entries name no other threads. This takes less than the soundness of
what the threads know, and it stays so where threads are told of clocks at will. It is all that a
check relies on. So the only check that fails is that of a thread without room for the new event
which the precise rule begins with, and such a check fails before anything is reported.
-/

namespace RaceWatch

open VectorClock

/-- The identity and the epoch of a thread are those of a position within the capacity. -/
structure ThreadState.Placed {K : Nat} (t : Nat) (s : ThreadState K) : Prop where
  fits : Fits K t
  id_eq : s.id = t
  thread_epoch : s.epoch.thread = t

namespace ThreadState

variable {K t : Nat} {s s' : ThreadState K}

theorem Placed.fits_id (h : s.Placed t) : Fits K s.id := h.id_eq ▸ h.fits

theorem placed_first (h : Fits K t) (hK : K ≤ maxThread) : (first t : ThreadState K).Placed t where
  fits := h
  id_eq := rfl
  thread_epoch := Epoch.thread_pack (h.2.trans hK) (by decide)

theorem Placed.observe (h : s.Placed t) (c : VectorClock K) : (s.observe c).Placed t :=
  ⟨h.fits, h.id_eq, h.thread_epoch⟩

theorem Placed.exit (h : s.Placed t) : s.exit.Placed t :=
  ⟨h.fits, h.id_eq, h.thread_epoch⟩

theorem Placed.tick (h : s.Placed t) (hK : K ≤ maxThread) (htick : s.tick = .ok s') :
    s'.Placed t := by
  obtain rfl := h.id_eq
  rw [tick_eq h.fits hK] at htick
  split at htick
  · cases htick
  · next hroom =>
    obtain rfl := Except.ok.inj htick
    exact ⟨h.fits, rfl, Epoch.thread_pack (h.fits.2.trans hK) (Nat.lt_of_not_le hroom)⟩

end ThreadState

namespace Registry

variable {K t : Nat} {r : Registry K} {s : ThreadState K}

/-- All threads of a registry are at their positions. -/
def Placed (r : Registry K) : Prop := ∀ t s, r.state? t = some s → s.Placed t

theorem Placed.put (hr : r.Placed) (hs : s.Placed t) : (r.put s).Placed := by
  intro u x hx
  obtain rfl := hs.id_eq
  rw [state?_put r hs.fits.1] at hx
  split at hx
  · next hu =>
    obtain ⟨-, -, rfl⟩ := Option.map_eq_some_iff.mp hx
    exact hu ▸ hs
  · exact hr u x hx

theorem Placed.add (hr : r.Placed) (hs : s.Placed (ownerOf r.size)) : (r.add s).Placed := by
  intro u x hx
  rw [state?_add] at hx
  split at hx
  · next hu =>
    obtain rfl := Option.some.inj hx
    exact hu ▸ hs
  · exact hr u x hx

variable (hr : r.Placed) (hK : K ≤ maxThread)
include hr hK

theorem Placed.register : r.register.state.Placed := by
  rw [Registry.register]
  split
  · exact hr
  dsimp only
  split
  · exact hr
  · next hroom =>
    have hfits : Fits K (ownerOf r.size) := ⟨Nat.succ_ne_zero _, Nat.le_of_not_lt hroom⟩
    rw [ThreadState.fresh_eq hfits hK]
    exact hr.add (ThreadState.placed_first hfits hK)

theorem Placed.transfer {giver receiver : ThreadState K} {g u : Nat} (hg : giver.Placed g)
    (hu : receiver.Placed u) (note : Epoch → Note) :
    (r.transfer giver receiver note).state.Placed := by
  have hlearnt := hr.put (hu.observe giver.clock)
  rw [Registry.transfer]
  cases htick : giver.tick with
  | error f =>
    rw [Reply.state_halt]
    exact hlearnt
  | ok giver' => exact hlearnt.put (hg.tick hK htick)

theorem Placed.fork (p c : Handle) : (r.fork p c).state.Placed := by
  rw [Registry.fork]
  rcases r.lookupAlivePair_cases p c with ⟨e, -, hl⟩ | ⟨s, s', hp, hc, -, hl⟩
  · rw [hl]
    exact hr
  · rw [hl]
    exact hr.transfer hK (hr _ _ (state?_of_lookup hp)) (hr _ _ (state?_of_lookup hc)) _

theorem Placed.join (p c : Handle) : (r.join p c).state.Placed := by
  rw [Registry.join]
  rcases r.lookupPair_cases p c with ⟨e, -, hl⟩ | ⟨s, s', hp, hc, -, hl⟩
  · rw [hl]
    exact hr
  · rw [hl]
    exact hr.transfer hK (hr _ _ (state?_of_lookup hc)) (hr _ _ (state?_of_lookup hp)) _

omit hK in
theorem Placed.exit (t : Handle) : (r.exit t).state.Placed := by
  rw [Registry.exit]
  rcases r.lookupAlive_cases t with ⟨e, -, hl⟩ | ⟨s, hs, hl⟩
  · rw [hl]
    exact hr
  · rw [hl]
    exact hr.put (hr _ _ (state?_of_lookup hs)).exit

end Registry

namespace Rule

variable {rule : Rule} {K t : Nat} {h : rule.History K} {s : ThreadState K} {a : Access}
  {f : Finding (rule.History K) K}

theorem inRange_neutral : (rule : Rule) → rule.InRange (rule.neutral : rule.History K)
  | .epoch => ⟨Epoch.thread_empty.le.trans (Nat.zero_le _),
      Epoch.thread_empty.le.trans (Nat.zero_le _)⟩
  | .precise => trivial

theorem InRange.of_check (hh : rule.InRange h) (hs : s.Placed t) (hf : rule.check h s a = .ok f) :
    rule.InRange f.history := by
  cases rule with
  | epoch =>
    have hh : EpochHistory.InRange h := hh
    have haccessed := hh.accessedBy (hs.thread_epoch.le.trans hs.fits.2) a.kind
    exact (hh.found_eq hs.fits_id hf).1 ▸ haccessed
  | precise => trivial

theorem placed_of_check (hs : s.Placed t) (hK : K ≤ maxThread) (hf : rule.check h s a = .ok f) :
    f.thread.Placed t := by
  rcases check_thread hf with ⟨-, hthread⟩ | ⟨-, htick⟩
  · exact hthread ▸ hs
  · exact hs.tick hK htick

end Rule

namespace Detector

variable {rule : Rule} {K : Nat} {d : Detector rule K} {config : Config} {tag : Nat} {h : Handle}
  {s : ThreadState K}

/-- All threads are at their positions, and the entries name no thread that has none. -/
structure Placed (d : Detector rule K) : Prop where
  capacity : K ≤ maxThread
  threads : d.registry.Placed
  entries : ∀ x, rule.InRange (d.entryOf x).history

theorem Placed.of_lookup (hd : d.Placed) (hl : d.registry.lookup h = .ok s) : s.Placed h.thread :=
  hd.threads _ _ (Registry.state?_of_lookup hl)

/-- Whatever a thread is told of, it stays where it is. -/
theorem Placed.observe (hd : d.Placed) (hl : d.registry.lookup h = .ok s) (clock : VectorClock K) :
    Placed { d with registry := d.registry.put (s.observe clock) } where
  capacity := hd.capacity
  threads := hd.threads.put ((hd.of_lookup hl).observe clock)
  entries := hd.entries

/-- The check of an access passes, or the thread has no room for the new event which the precise
rule begins with. -/
theorem Placed.check_cases (hd : d.Placed) (hl : d.registry.lookup h = .ok s) (a : Access) :
    (∃ checked, (d.entryOf a.address).check d.config s a = .ok checked) ∨
      rule = .precise ∧ ∃ v, s.tick = .error (.error (.clockOverflow h.thread v)) ∧
        (d.entryOf a.address).check d.config s a =
          .error (.error (.clockOverflow h.thread v)) := by
  have hs := hd.of_lookup hl
  rcases Rule.check_total (hd.entries a.address) hs.fits_id hd.capacity a with
    ⟨f, hf, -⟩ | ⟨hrule, -, htick, hf⟩
  · rw [Entry.check, hf]
    exact .inl ⟨_, rfl⟩
  · rw [hs.id_eq] at htick hf
    rw [Entry.check, hf]
    exact .inr ⟨hrule, _, htick, rfl⟩

theorem Placed.registry_step (hd : d.Placed) (op : Op Handle) :
    (d.step op).state.registry.Placed := by
  cases op with
  | start => exact hd.threads.register hd.capacity
  | fork p c => exact hd.threads.fork hd.capacity p c
  | join p c => exact hd.threads.join hd.capacity p c
  | exit t => exact hd.threads.exit t
  | acquire lock t =>
    simp only [step, acquire, Reply.state_mapResult]
    cases hl : d.registry.lookup t with
    | error e => exact hd.threads
    | ok s =>
      have hs := hd.of_lookup hl
      simp only [LockStore.acquire, Reply.state_mapState]
      cases s.ensureAlive with
      | error e => exact hd.threads.put hs
      | ok => exact hd.threads.put (hs.observe _)
  | release lock t =>
    simp only [step, release, Reply.state_mapResult]
    cases hl : d.registry.lookup t with
    | error e => exact hd.threads
    | ok s =>
      have hs := hd.of_lookup hl
      simp only [LockStore.release, Reply.state_mapState]
      cases s.ensureAlive with
      | error e => exact hd.threads.put hs
      | ok =>
        cases htick : s.tick with
        | error f =>
          simp only [Reply.state_halt]
          exact hd.threads.put hs
        | ok s' => exact hd.threads.put (hs.tick hd.capacity htick)
  | access t a =>
    rcases d.access_cases t a with ⟨-, hspares⟩ | ⟨-, s, checked, hpass⟩
    · rw [hspares.registry_eq]
      exact hd.threads
    · obtain ⟨f, hf, hthread, -⟩ := Entry.check_eq_ok hpass.check_eq
      rw [hpass.registry_eq, hthread]
      exact hd.threads.put (Rule.placed_of_check (hd.threads _ _ hpass.state?_eq) hd.capacity hf)
  | forgetLock | init | forget => exact hd.threads

theorem Placed.entries_step (hd : d.Placed) (op : Op Handle) (x : Address) :
    rule.InRange ((d.step op).state.entryOf x).history := by
  obtain ⟨t, a, rfl⟩ | hne := op.access_or_ne
  · rcases d.access_cases t a with ⟨-, hspares⟩ | ⟨-, s, checked, hpass⟩
    · rw [hspares.entryOf_eq]
      exact hd.entries x
    · obtain ⟨f, hf, -, hentry⟩ := Entry.check_eq_ok hpass.check_eq
      rw [hpass.entryOf_eq, hentry]
      split
      · exact (hd.entries a.address).of_check (hd.threads _ _ hpass.state?_eq) hf
      · exact hd.entries x
  · rw [entryOf_step d hne]
    split
    · exact rule.inRange_neutral
    · exact hd.entries x

theorem Placed.step (hd : d.Placed) (op : Op Handle) : (d.step op).state.Placed where
  capacity := hd.capacity
  threads := hd.registry_step op
  entries := hd.entries_step op

theorem Placed.run (hd : d.Placed) (ops : List (Op Handle)) : (d.run ops).Placed := by
  induction ops generalizing d with
  | nil => exact hd
  | cons op rest ih => exact ih (hd.step op)

theorem placed_create (h : create rule K config tag = .ok d) : d.Placed := by
  refine ⟨(sound_create h).capacity, fun t s hs => ?_, fun x => ?_⟩
  · obtain ⟨-, rfl⟩ := create_eq_ok h
    simp [Registry.empty, Registry.state?] at hs
  · obtain ⟨-, rfl⟩ := create_eq_ok h
    exact rule.inRange_neutral

end Detector

end RaceWatch
