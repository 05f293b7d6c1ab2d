import RaceWatch.Proofs.Bookkeeping

/-!
The accesses that count for a location: those that succeeded since it was last
forgotten. The entry of the location is the outcome of their checks, one after another,
and nothing else in a run has a part in it. So what is to be shown of every entry is
shown by induction on these checks.
-/

namespace RaceWatch

open VectorClock

/-- An access to a location that succeeded. -/
structure Visit where
  position : Nat
  thread : Nat
  kind : AccessKind
deriving DecidableEq

/-- The accesses that count for a location after an event, from those before it. -/
def Event.revisit (x : Address) (visits : List Visit) (i : Nat) (e : Event) : List Visit :=
  match e.op with
  | .access h a =>
      if e.succeeded ∧ a.address = x then visits ++ [⟨i, h.thread, a.kind⟩] else visits
  | .forget y => if y = x then [] else visits
  | _ => visits

theorem Event.mem_revisit {x : Address} {visits : List Visit} {i : Nat} {e : Event} {v : Visit} :
    v ∈ e.revisit x visits i ↔ (v ∈ visits ∧ e.op ≠ .forget x) ∨
      (v.position = i ∧ e.effective = true ∧
        ∃ h, e.op = .access h ⟨x, v.kind⟩ ∧ h.thread = v.thread) := by
  cases hop : e.op with
  | access h a =>
    rw [effective_of_access hop]
    obtain ⟨y, kind⟩ := a
    obtain ⟨j, t, kind'⟩ := v
    by_cases hvisit : e.succeeded = true ∧ y = x
    · obtain ⟨hs, rfl⟩ := hvisit
      simp only [revisit, hop, hs, and_self, if_true, List.mem_append, List.mem_singleton,
        Visit.mk.injEq, Op.access.injEq, Access.mk.injEq]
      grind
    · simp only [revisit, hop, hvisit, if_false, Op.access.injEq, Access.mk.injEq]
      grind
  | forget y =>
    by_cases hy : y = x
    · simp [revisit, hop, hy]
    · simp [revisit, hop, hy]
  | start | fork | join | exit | acquire | release | forgetLock | init => simp [revisit, hop]

namespace Chronicle

/-- The accesses that count for a location among the first operations of a run. -/
def visits (H : Chronicle) (x : Address) : Nat → List Visit
  | 0 => []
  | n + 1 => match H[n]? with
    | none => H.visits x n
    | some e => e.revisit x (H.visits x n) n

/-- Whether a visit was made to a location in a run. -/
def Made (H : Chronicle) (x : Address) (v : Visit) : Prop :=
  ∃ e h, H.At v.position e ∧ e.op = .access h ⟨x, v.kind⟩ ∧ h.thread = v.thread

variable {H : Chronicle} {x : Address} {n : Nat} {e : Event} {v w : Visit}

theorem Made.exists_at (h : H.Made x v) : ∃ e, H.At v.position e ∧ e.actor? = some v.thread := by
  obtain ⟨e, t, he, hop, ht⟩ := h
  exact ⟨e, he, by simp [Event.actor?, hop, Op.actor?, ht]⟩

theorem visits_succ (h : H[n]? = some e) : H.visits x (n + 1) = e.revisit x (H.visits x n) n := by
  rw [visits, h]

theorem visits_succ_of_none (h : H[n]? = none) : H.visits x (n + 1) = H.visits x n := by
  rw [visits, h]

/-- The accesses that count are those made to the location that were not followed by its
being forgotten. -/
theorem mem_visits : v ∈ H.visits x n ↔ v.position < n ∧ H.Made x v ∧
    ∀ k e, v.position < k → k < n → H[k]? = some e → e.op ≠ .forget x := by
  induction n with
  | zero => simp [visits]
  | succ n ih =>
    cases hn : H[n]? with
    | none =>
      rw [visits_succ_of_none hn, ih]
      constructor
      · rintro ⟨hlt, hmade, hkeep⟩
        refine ⟨by omega, hmade, fun k e hk hkn he => ?_⟩
        rcases Nat.lt_succ_iff_lt_or_eq.mp hkn with hkn | rfl
        · exact hkeep k e hk hkn he
        · simp [hn] at he
      · rintro ⟨hlt, hmade, hkeep⟩
        refine ⟨?_, hmade, fun k e hk hkn => hkeep k e hk (by omega)⟩
        obtain ⟨e, he, -⟩ := hmade.exists_at
        rcases Nat.lt_succ_iff_lt_or_eq.mp hlt with hlt | rfl
        · exact hlt
        · exact absurd he.1 (by simp [hn])
    | some e =>
      rw [visits_succ hn, Event.mem_revisit, ih]
      constructor
      · rintro (⟨⟨hlt, hmade, hkeep⟩, hne⟩ | ⟨rfl, heff, h, hop, ht⟩)
        · refine ⟨by omega, hmade, fun k f hk hkn hf => ?_⟩
          rcases Nat.lt_succ_iff_lt_or_eq.mp hkn with hkn | rfl
          · exact hkeep k f hk hkn hf
          · exact Option.some.inj (hn.symm.trans hf) ▸ hne
        · exact ⟨by omega, ⟨e, h, ⟨hn, heff⟩, hop, ht⟩, fun k f hk hkn => by omega⟩
      · rintro ⟨hlt, hmade, hkeep⟩
        rcases Nat.lt_succ_iff_lt_or_eq.mp hlt with hlt | rfl
        · exact .inl ⟨⟨hlt, hmade, fun k f hk hkn => hkeep k f hk (by omega)⟩,
            hkeep n e hlt (by omega) hn⟩
        · obtain ⟨f, h, hf, hop, ht⟩ := hmade
          obtain rfl := Option.some.inj (hn.symm.trans hf.1)
          exact .inr ⟨rfl, hf.2, h, hop, ht⟩

theorem position_lt_of_mem (h : v ∈ H.visits x n) : v.position < n := (mem_visits.mp h).1

theorem made_of_mem (h : v ∈ H.visits x n) : H.Made x v := (mem_visits.mp h).2.1

/-- A visit is later than all that were made before it. -/
theorem not_happensBefore_of_mem (h : w ∈ H.visits x n) (hn : n ≤ v.position) :
    ¬ H.HappensBefore v.position w.position := by
  intro hvw
  have hlt := hvw.lt
  have hw := position_lt_of_mem h
  omega

/-! ### What the check of a visit sees and leaves -/

variable {rule : Rule} {K : Nat} {s : ThreadState K} {h : rule.History K}
  {f : Finding (rule.History K) K}

/-- The check of a visit comes to a finding. Its thread is sound and knows what the
chronicle says. -/
structure Checks (rule : Rule) (H : Chronicle) (x : Address) (v : Visit) (h : rule.History K)
    (s : ThreadState K) (f : Finding (rule.History K) K) : Prop where
  made : H.Made x v
  capacity : K ≤ maxThread
  sound : s.Sound v.thread
  clock_eq : s.clock = H.knownAt rule K v.position (.thread v.thread)
  check_eq : rule.check h s ⟨x, v.kind⟩ = .ok f

theorem Checks.thread_cases (hc : H.Checks rule x v h s f) :
    (rule = .epoch ∧ f.thread = s) ∨
      (rule = .precise ∧ s.clock.time v.thread < Epoch.maxClock ∧ f.thread = s.next) := by
  rcases Rule.check_thread hc.check_eq with ⟨hrule, hthread⟩ | ⟨hrule, htick⟩
  · exact .inl ⟨hrule, hthread⟩
  · rcases hc.sound.tick_cases hc.capacity with ⟨hmax, hnext⟩ | ⟨w, hnext⟩
    · exact .inr ⟨hrule, hmax, Except.ok.inj (htick.symm.trans hnext)⟩
    · simp [hnext] at htick

theorem Checks.sound_thread (hc : H.Checks rule x v h s f) : f.thread.Sound v.thread := by
  rcases hc.thread_cases with ⟨-, hthread⟩ | ⟨-, hmax, hthread⟩
  · rw [hthread]
    exact hc.sound
  · rw [hthread]
    exact hc.sound.next hmax

/-- The stamp of a visit is the clock with which its thread leaves the check. -/
theorem Checks.stamp_eq (hc : H.Checks rule x v h s f) :
    H.stamp rule K v.position = f.thread.clock := by
  obtain ⟨e, t, he, hop, ht⟩ := hc.made
  have hact : e.actor? = some v.thread := by simp [Event.actor?, hop, Op.actor?, ht]
  obtain ⟨value, hvalue⟩ : ∃ value, e.result = .ok value := by
    have hs := Event.effective_of_access hop ▸ he.2
    cases hr : e.result with
    | ok value => exact ⟨value, rfl⟩
    | error => simp [Event.succeeded, hr] at hs
  rw [Chronicle.stamp_eq he hact, Knowledge.stamp, hop, Knowledge.pass]
  rcases hc.thread_cases with ⟨rfl, hthread⟩ | ⟨rfl, -, hthread⟩
  · have hnone : e.opener? .epoch = none := by
      simp [Event.opener?, Event.ticker?, hop, hvalue]
    rw [hnone, hthread, hc.clock_eq]
    rfl
  · have hsome : e.opener? .precise = some v.thread := by
      simp [Event.opener?, Event.ticker?, hop, hvalue, ht]
    rw [hsome, hthread, Knowledge.tick?, Knowledge.tick, Knowledge.replace_target,
      ThreadState.next, hc.clock_eq, hc.sound.id_eq]

/-- The entries that are left by the visits of a location. -/
inductive Leaves (H : Chronicle) (config : Config) (x : Address) :
    List Visit → Entry rule K → Prop
  | neutral : Leaves H config x [] (.neutral x)
  | check {visits : List Visit} {v : Visit} {entry : Entry rule K} {s : ThreadState K}
      {f : Finding (rule.History K) K} (before : Leaves H config x visits entry)
      (earlier : visits = H.visits x v.position)
      (checks : H.Checks rule x v entry.history s f) :
      Leaves H config x (visits ++ [v]) (entry.found config x f)

end Chronicle

namespace Detector

variable {rule : Rule} {K : Nat} {d : Detector rule K} {config : Config} {tag : Nat}

theorem config_after (h : create rule K config tag = .ok d) (ops : List (Op Handle)) (n : Nat) :
    (d.after ops n).config = config := by
  induction n with
  | zero =>
    obtain ⟨-, rfl⟩ := create_eq_ok h
    rfl
  | succ n ih =>
    cases hop : ops[n]? with
    | none => rwa [after_succ_of_none d hop]
    | some op => rw [after_succ d hop, config_step, ih]

/-- An access that passes its check in a run is a visit. -/
theorem checks_of_passes (h : create rule K config tag = .ok d) {ops : List (Op Handle)} {n : Nat}
    {t : Handle} {a : Access} {s : ThreadState K} {checked : CheckedAccess rule K}
    (hn : ops[n]? = some (.access t a))
    (hr : ((d.after ops n).step (.access t a)).result = .ok .unit)
    (hpass : (d.after ops n).Passes t a s checked ((d.after ops n).step (.access t a)).state) :
    ∃ f, checked.entry = ((d.after ops n).entryOf a.address).found config a.address f ∧
      checked.thread = f.thread ∧
      (d.chronicle ops).Checks rule a.address ⟨n, t.thread, a.kind⟩
        ((d.after ops n).entryOf a.address).history s f := by
  obtain ⟨f, hf, hthread, hentry⟩ := Entry.check_eq_ok (config_after h ops n ▸ hpass.check_eq)
  refine ⟨f, hentry, hthread, ?_, (sound_create h).capacity, ?_, ?_, hf⟩
  · refine ⟨⟨.access t a, .ok .unit⟩, t, ⟨?_, rfl⟩, rfl, rfl⟩
    rw [getElem?_chronicle, hn, Option.map_some, hr]
  · exact (sound_after h ops n).threads _ _ hpass.state?_eq
  · exact clock_after h hpass.state?_eq

/-- What holds of a location that nobody has touched, and is kept by each of its visits, holds
of every location at any time. -/
theorem visit_induction (h : create rule K config tag = .ok d) (ops : List (Op Handle))
    (x : Address) {P : List Visit → Entry rule K → Prop} (neutral : P [] (.neutral x))
    (visit : ∀ v s f,
      P ((d.chronicle ops).visits x v.position) ((d.after ops v.position).entryOf x) →
      (d.after ops v.position).state? v.thread = some s →
      (d.chronicle ops).Checks rule x v ((d.after ops v.position).entryOf x).history s f →
      (d.after ops (v.position + 1)).entryOf x =
        ((d.after ops v.position).entryOf x).found config x f →
      P ((d.chronicle ops).visits x v.position ++ [v])
        (((d.after ops v.position).entryOf x).found config x f)) (n : Nat) :
    P ((d.chronicle ops).visits x n) ((d.after ops n).entryOf x) := by
  induction n with
  | zero =>
    obtain ⟨-, rfl⟩ := create_eq_ok h
    have hentry : (⟨config, .empty tag, .empty, .empty, 0⟩ : Detector rule K).entryOf x =
        .neutral x := by
      simp [entryOf, ShadowMemory.getD]
    rw [after_zero, hentry]
    exact neutral
  | succ n ih =>
    have hevent := getElem?_chronicle d ops n
    -- Past the end of the run nothing happens. An operation matters if it is an access
    -- to the location that passes its check, or forgets the location.
    cases hop : ops[n]? with
    | none =>
      rw [hop, Option.map_none] at hevent
      rwa [Chronicle.visits_succ_of_none hevent, after_succ_of_none d hop]
    | some op =>
      rw [hop, Option.map_some] at hevent
      have hafter := after_succ d hop
      rw [Chronicle.visits_succ hevent]
      obtain ⟨t, a, rfl⟩ | hne := op.access_or_ne
      · rcases (d.after ops n).access_cases t a with
          ⟨⟨error, hr⟩, hspares⟩ | ⟨hr, s, checked, hpass⟩
        · simpa [hr, hafter, Event.revisit, Event.succeeded, hspares.entryOf_eq] using ih
        · by_cases hx : a.address = x
          · subst hx
            obtain ⟨f, hentry, -, hchecks⟩ := checks_of_passes h hop hr hpass
            have hfound : (d.after ops (n + 1)).entryOf a.address =
                ((d.after ops n).entryOf a.address).found config a.address f := by
              rw [hafter, hpass.entryOf_eq, if_pos rfl, hentry]
            have hvisit := visit _ s f ih hpass.state?_eq hchecks hfound
            simpa [hr, Event.revisit, Event.succeeded, hfound] using hvisit
          · simpa [hr, hafter, Event.revisit, Event.succeeded, hpass.entryOf_eq, hx, Ne.symm hx]
              using ih
      · rw [hafter, entryOf_step _ hne]
        by_cases hx : op = .forget x
        · subst hx
          simpa [Event.revisit] using neutral
        · rw [if_neg hx]
          cases op with
          | access t a => exact absurd rfl (hne t a)
          | forget y => simpa [Event.revisit, show y ≠ x by simpa using hx] using ih
          | start | fork | join | exit | acquire | release | forgetLock | init => exact ih

/-- The entry of a location is what its visits left. -/
theorem leaves_entryOf (h : create rule K config tag = .ok d) (ops : List (Op Handle))
    (x : Address) (n : Nat) :
    (d.chronicle ops).Leaves config x ((d.chronicle ops).visits x n)
      ((d.after ops n).entryOf x) :=
  visit_induction h ops x .neutral (fun _ _ _ hleaves _ hchecks _ => .check hleaves rfl hchecks) n

end Detector

end RaceWatch
