import RaceWatch.Proofs.Guarded

/-!
Accesses within accesses, one after the other. An access holds its entry until its operation has
ended, and what the operation does in the meantime may exit its thread, forget its address or make
further accesses, to that address as well. But all that the access itself does is done by then. So
the same comes of making each access with an operation that does nothing, and doing afterwards, in
the order in which they were called, the things that were nested in it. That an operation panics
is of no consequence.
-/

namespace RaceWatch

/-- The same script where no operation panics. -/
def Script.calm {K : Nat} : Script K → Script K
  | .finish => .finish
  | .act a rest => .act a rest.calm
  | .access i t a body _ rest => .access i t a body.calm false rest.calm

/-- Make out what something refers to, and do it. -/
def madeOut {α β : Type} (x? : Option α) (f : α → Except Obstacle β) : Except Obstacle (α × β) :=
  match x? with
  | none => .error .absent
  | some x => (f x).map (x, ·)

section

variable {α β : Type} {x? : Option α} {f : α → Except Obstacle β} {x : α} {y : β}

theorem madeOut_eq_ok : madeOut x? f = .ok (x, y) ↔ x? = some x ∧ f x = .ok y := by
  cases x? with
  | none => simp [madeOut]
  | some x' =>
    simp only [madeOut, map_eq_ok, Prod.mk.injEq, Option.some.injEq]
    constructor
    · rintro ⟨y', hy, rfl, rfl⟩
      exact ⟨rfl, hy⟩
    · rintro ⟨rfl, hy⟩
      exact ⟨y, hy, rfl, rfl⟩

theorem madeOut_eq_absent :
    madeOut x? f = .error .absent ↔ ∀ x, x? = some x → f x = .error .absent := by
  cases x? with
  | none => simp [madeOut]
  | some x => simp [madeOut, map_eq_error]

end

namespace GuardedSession

variable {K : Nat}

/-! ### Runs -/

/-- Make out the threads and do one thing. -/
def attempt (s : GuardedSession K) (act : Act ThreadRef K) :
    Except Obstacle (Act Handle K × Reply (GuardedSession K) Value) :=
  madeOut (act.resolve s.view.resolve?) s.act

/-- Make out the thread and check an access. -/
def attemptEnter (s : GuardedSession K) (i : Nat) (t : ThreadRef) (a : Access) :
    Except Obstacle (Handle × Reply (GuardedSession K) Nat) :=
  madeOut (s.view.resolve? t) fun h => s.enter i h a

/-- What was done, what it came to and what the session shows right after. -/
def outcome (x : Act Handle K) (r : Reply (GuardedSession K) Value) : Outcome K :=
  ⟨x, r.result, r.state.view, r.notes⟩

/-- What comes of an access up to the end of its check. -/
def checkOutcome (i : Nat) (t : Handle) (a : Access) (r : Reply (GuardedSession K) Nat) :
    Outcome K :=
  outcome (.call i (.access t a) none) (r.mapResult fun _ => .unit)

/-- A script runs in a session without ever having to lock an entry that is held, does some
things and leads to another session. The entry of an access is held while its body runs. What
names something that does not exist is left out. -/
inductive Runs : GuardedSession K → Script K → List (Outcome K) → GuardedSession K → Prop
  | finish {s : GuardedSession K} : Runs s .finish [] s
  | absent {s s' : GuardedSession K} {x : Act ThreadRef K} {rest : Script K}
      {log : List (Outcome K)} (absent : s.attempt x = .error .absent)
      (later : Runs s rest log s') : Runs s (.act x rest) log s'
  | act {s s' : GuardedSession K} {x : Act ThreadRef K} {y : Act Handle K}
      {r : Reply (GuardedSession K) Value} {rest : Script K} {log : List (Outcome K)}
      (done : s.attempt x = .ok (y, r)) (later : Runs r.state rest log s') :
      Runs s (.act x rest) (outcome y r :: log) s'
  | absentAccess {s s' : GuardedSession K} {i : Nat} {t : ThreadRef} {a : Access}
      {body rest : Script K} {panics : Bool} {log : List (Outcome K)}
      (absent : s.attemptEnter i t a = .error .absent) (later : Runs s rest log s') :
      Runs s (.access i t a body panics rest) log s'
  | refused {s s' : GuardedSession K} {i : Nat} {t : ThreadRef} {h : Handle} {a : Access}
      {r : Reply (GuardedSession K) Nat} {f : Failure Error} {body rest : Script K}
      {panics : Bool} {log : List (Outcome K)}
      (entered : s.attemptEnter i t a = .ok (h, r)) (failed : r.result = .error f)
      (later : Runs r.state rest log s') :
      Runs s (.access i t a body panics rest) (checkOutcome i h a r :: log) s'
  | passed {s s' s'' : GuardedSession K} {i n : Nat} {t : ThreadRef} {h : Handle} {a : Access}
      {r : Reply (GuardedSession K) Nat} {body rest : Script K} {panics : Bool}
      {inner log : List (Outcome K)}
      (entered : s.attemptEnter i t a = .ok (h, r)) (succeeded : r.result = .ok n)
      (during : Runs r.state body inner s') (later : Runs (s'.leave i n panics) rest log s'') :
      Runs s (.access i t a body panics rest) (checkOutcome i h a r :: (inner ++ log)) s''

/-- A script comes to lock an entry that is held, and waits for ever. -/
inductive Blocks : GuardedSession K → Script K → Prop
  | act {s : GuardedSession K} {x : Act ThreadRef K} {rest : Script K}
      (waits : s.attempt x = .error .held) : Blocks s (.act x rest)
  | afterAbsent {s : GuardedSession K} {x : Act ThreadRef K} {rest : Script K}
      (absent : s.attempt x = .error .absent) (later : Blocks s rest) : Blocks s (.act x rest)
  | afterAct {s : GuardedSession K} {x : Act ThreadRef K} {y : Act Handle K}
      {r : Reply (GuardedSession K) Value} {rest : Script K} (done : s.attempt x = .ok (y, r))
      (later : Blocks r.state rest) : Blocks s (.act x rest)
  | access {s : GuardedSession K} {i : Nat} {t : ThreadRef} {a : Access} {body rest : Script K}
      {panics : Bool} (waits : s.attemptEnter i t a = .error .held) :
      Blocks s (.access i t a body panics rest)
  | afterAbsentAccess {s : GuardedSession K} {i : Nat} {t : ThreadRef} {a : Access}
      {body rest : Script K} {panics : Bool} (absent : s.attemptEnter i t a = .error .absent)
      (later : Blocks s rest) : Blocks s (.access i t a body panics rest)
  | afterRefused {s : GuardedSession K} {i : Nat} {t : ThreadRef} {h : Handle} {a : Access}
      {r : Reply (GuardedSession K) Nat} {f : Failure Error} {body rest : Script K}
      {panics : Bool} (entered : s.attemptEnter i t a = .ok (h, r)) (failed : r.result = .error f)
      (later : Blocks r.state rest) : Blocks s (.access i t a body panics rest)
  | during {s : GuardedSession K} {i n : Nat} {t : ThreadRef} {h : Handle} {a : Access}
      {r : Reply (GuardedSession K) Nat} {body rest : Script K} {panics : Bool}
      (entered : s.attemptEnter i t a = .ok (h, r)) (succeeded : r.result = .ok n)
      (within : Blocks r.state body) : Blocks s (.access i t a body panics rest)
  | afterAccess {s s' : GuardedSession K} {i n : Nat} {t : ThreadRef} {h : Handle} {a : Access}
      {r : Reply (GuardedSession K) Nat} {body rest : Script K} {panics : Bool}
      {inner : List (Outcome K)} (entered : s.attemptEnter i t a = .ok (h, r))
      (succeeded : r.result = .ok n) (during : Runs r.state body inner s')
      (later : Blocks (s'.leave i n panics) rest) : Blocks s (.access i t a body panics rest)

/-- Things are done one after the other, each access with an operation that does nothing. -/
inductive InTurn : GuardedSession K → List (Outcome K) → GuardedSession K → Prop
  | nil {s : GuardedSession K} : InTurn s [] s
  | cons {s s' : GuardedSession K} {x : Act Handle K} {r : Reply (GuardedSession K) Value}
      {log : List (Outcome K)} (done : s.act x = .ok r) (later : InTurn r.state log s') :
      InTurn s (outcome x r :: log) s'

variable {s s₁ s' s₁' s'' : GuardedSession K} {script : Script K} {log log' : List (Outcome K)}
  {i : Nat} {t : Handle} {a : Access} {x : Act Handle K}

theorem attempt_eq_absent {x' : Act ThreadRef K} :
    s.attempt x' = .error .absent ↔ s.view.perform? x' = none := by
  rw [attempt, madeOut_eq_absent, Session.perform?]
  cases x'.resolve s.view.resolve? with
  | none => simp
  | some y =>
    simp only [Option.some.injEq, forall_eq', act_eq_absent]
    cases hr : s.view.act? y <;> simp [hr]

/-- An access is not made if that would name something that does not exist. -/
theorem attemptEnter_eq_absent {t' : ThreadRef} : s.attemptEnter i t' a = .error .absent ↔
    s.view.perform? (.call i (.access t' a) none) = none := by
  rw [← attempt_eq_absent, attemptEnter, attempt, madeOut_eq_absent, madeOut_eq_absent,
    Act.resolve, Op.resolve]
  cases s.view.resolve? t' with
  | none => simp
  | some h =>
    have hiff : s.enter i h a = .error .absent ↔
        s.act (.call i (.access h a) none) = .error .absent :=
      (enter_eq_absent.trans call_eq_absent.symm).trans map_eq_error.symm
    simpa using hiff

/-! ### What a run begins with -/

section

variable {x' : Act ThreadRef K} {y : Act Handle K} {t' : ThreadRef} {body rest : Script K}
  {panics : Bool}

theorem Runs.attempt_ne_held (h : s.Runs (.act x' rest) log s') : s.attempt x' ≠ .error .held := by
  intro hwaits
  cases h with
  | absent absent => simp [hwaits] at absent
  | act done => simp [hwaits] at done

theorem Runs.of_absent (h : s.Runs (.act x' rest) log s') (hx : s.attempt x' = .error .absent) :
    s.Runs rest log s' := by
  cases h with
  | absent _ later => exact later
  | act done => simp [hx] at done

theorem Runs.of_done {r : Reply (GuardedSession K) Value} (h : s.Runs (.act x' rest) log s')
    (hx : s.attempt x' = .ok (y, r)) :
    ∃ later, log = outcome y r :: later ∧ r.state.Runs rest later s' := by
  cases h with
  | absent absent => simp [hx] at absent
  | act done later =>
    obtain ⟨rfl, rfl⟩ := Prod.mk.inj (Except.ok.inj (hx.symm.trans done))
    exact ⟨_, rfl, later⟩

theorem Runs.attemptEnter_ne_held (h : s.Runs (.access i t' a body panics rest) log s') :
    s.attemptEnter i t' a ≠ .error .held := by
  intro hwaits
  cases h with
  | absentAccess absent => simp [hwaits] at absent
  | refused entered | passed entered => simp [hwaits] at entered

theorem Runs.of_absentAccess (h : s.Runs (.access i t' a body panics rest) log s')
    (hx : s.attemptEnter i t' a = .error .absent) : s.Runs rest log s' := by
  cases h with
  | absentAccess _ later => exact later
  | refused entered | passed entered => simp [hx] at entered

/-- Nothing is done of the body of an access that fails its check. -/
theorem Runs.of_refused {r : Reply (GuardedSession K) Nat} {f : Failure Error}
    (h : s.Runs (.access i t' a body panics rest) log s')
    (hx : s.attemptEnter i t' a = .ok (t, r)) (hf : r.result = .error f) :
    ∃ later, log = checkOutcome i t a r :: later ∧ r.state.Runs rest later s' := by
  cases h with
  | absentAccess absent => simp [hx] at absent
  | refused entered _ later =>
    obtain ⟨rfl, rfl⟩ := Prod.mk.inj (Except.ok.inj (hx.symm.trans entered))
    exact ⟨_, rfl, later⟩
  | passed entered succeeded =>
    obtain ⟨rfl, rfl⟩ := Prod.mk.inj (Except.ok.inj (hx.symm.trans entered))
    simp [hf] at succeeded

theorem Runs.of_passed {r : Reply (GuardedSession K) Nat} {n : Nat}
    (h : s.Runs (.access i t' a body panics rest) log s')
    (hx : s.attemptEnter i t' a = .ok (t, r)) (hn : r.result = .ok n) :
    ∃ inner later s₁, log = checkOutcome i t a r :: (inner ++ later) ∧
      r.state.Runs body inner s₁ ∧ (s₁.leave i n panics).Runs rest later s' := by
  cases h with
  | absentAccess absent => simp [hx] at absent
  | refused entered failed =>
    obtain ⟨rfl, rfl⟩ := Prod.mk.inj (Except.ok.inj (hx.symm.trans entered))
    simp [hn] at failed
  | passed entered succeeded during later =>
    obtain ⟨rfl, rfl⟩ := Prod.mk.inj (Except.ok.inj (hx.symm.trans entered))
    obtain rfl := Except.ok.inj (hn.symm.trans succeeded)
    exact ⟨_, _, _, rfl, during, later⟩

end

/-! ### Scripts that wait -/

/-- A script runs unless it comes to wait for an entry. -/
theorem blocks_or_runs (s : GuardedSession K) (script : Script K) :
    s.Blocks script ∨ ∃ log s', s.Runs script log s' := by
  induction script generalizing s with
  | finish => exact .inr ⟨_, _, .finish⟩
  | act x rest ih =>
    rcases hx : s.attempt x with ⟨_ | _⟩ | ⟨y, r⟩
    · rcases ih s with hblocks | ⟨log, s', hrun⟩
      · exact .inl (.afterAbsent hx hblocks)
      · exact .inr ⟨_, _, .absent hx hrun⟩
    · exact .inl (.act hx)
    · rcases ih r.state with hblocks | ⟨log, s', hrun⟩
      · exact .inl (.afterAct hx hblocks)
      · exact .inr ⟨_, _, .act hx hrun⟩
  | access i t a body panics rest ihbody ihrest =>
    rcases hx : s.attemptEnter i t a with ⟨_ | _⟩ | ⟨h, r⟩
    · rcases ihrest s with hblocks | ⟨log, s', hrun⟩
      · exact .inl (.afterAbsentAccess hx hblocks)
      · exact .inr ⟨_, _, .absentAccess hx hrun⟩
    · exact .inl (.access hx)
    · cases hr : r.result with
      | error f =>
        rcases ihrest r.state with hblocks | ⟨log, s', hrun⟩
        · exact .inl (.afterRefused hx hr hblocks)
        · exact .inr ⟨_, _, .refused hx hr hrun⟩
      | ok n =>
        rcases ihbody r.state with hblocks | ⟨inner, s', hbody⟩
        · exact .inl (.during hx hr hblocks)
        · rcases ihrest (s'.leave i n panics) with hblocks | ⟨log, s'', hrun⟩
          · exact .inl (.afterAccess hx hr hbody hblocks)
          · exact .inr ⟨_, _, .passed hx hr hbody hrun⟩

/-- What a script comes to is determined by the session that it runs in. -/
theorem Runs.unique (h : s.Runs script log s') (h' : s.Runs script log' s'') :
    log = log' ∧ s' = s'' := by
  induction h generalizing log' s'' with
  | finish =>
    cases h'
    exact ⟨rfl, rfl⟩
  | absent absent _ ih => exact ih (h'.of_absent absent)
  | act done _ ih =>
    obtain ⟨later, rfl, hrun⟩ := h'.of_done done
    exact (ih hrun).imp_left (congrArg _)
  | absentAccess absent _ ih => exact ih (h'.of_absentAccess absent)
  | refused entered failed _ ih =>
    obtain ⟨later, rfl, hrun⟩ := h'.of_refused entered failed
    exact (ih hrun).imp_left (congrArg _)
  | passed entered succeeded _ _ ihbody ihrest =>
    obtain ⟨inner, later, s₁, rfl, hbody, hrun⟩ := h'.of_passed entered succeeded
    obtain ⟨rfl, rfl⟩ := ihbody hbody
    obtain ⟨rfl, rfl⟩ := ihrest hrun
    exact ⟨rfl, rfl⟩

/-- A script that runs never comes to wait for an entry. -/
theorem Runs.not_blocks (h : s.Runs script log s') : ¬ s.Blocks script := by
  intro hblocks
  induction hblocks generalizing log s' with
  | act waits => exact h.attempt_ne_held waits
  | afterAbsent absent _ ih => exact ih (h.of_absent absent)
  | afterAct done _ ih =>
    obtain ⟨later, -, hrun⟩ := h.of_done done
    exact ih hrun
  | access waits => exact h.attemptEnter_ne_held waits
  | afterAbsentAccess absent _ ih => exact ih (h.of_absentAccess absent)
  | afterRefused entered failed _ ih =>
    obtain ⟨later, -, hrun⟩ := h.of_refused entered failed
    exact ih hrun
  | during entered succeeded _ ih =>
    obtain ⟨inner, later, s₁, -, hbody, -⟩ := h.of_passed entered succeeded
    exact ih hbody
  | afterAccess entered succeeded during _ ih =>
    obtain ⟨inner, later, s₁, -, hbody, hrun⟩ := h.of_passed entered succeeded
    obtain ⟨-, rfl⟩ := during.unique hbody
    exact ih hrun

/-! ### Linear runs -/

theorem InTurn.held_sublist (h : s.InTurn log s') : s'.held.Sublist s.held := by
  induction h with
  | nil => exact List.Sublist.refl _
  | cons done _ ih => exact ih.trans (held_act done)

theorem InTurn.append (h : s.InTurn log s') (h' : s'.InTurn log' s'') :
    s.InTurn (log ++ log') s'' := by
  induction h with
  | nil => exact h'
  | cons done _ ih => exact .cons done (ih h')

theorem QuieterReply.outcome_eq {r₁ r : Reply (GuardedSession K) Value} (h : QuieterReply r₁ r)
    (x : Act Handle K) : outcome x r₁ = outcome x r := by
  rw [outcome, outcome, h.result_eq, h.notes_eq, h.quieter.view_eq]

theorem QuieterReply.checkOutcome_eq {r₁ r : Reply (GuardedSession K) Nat}
    (h : QuieterReply r₁ r) (i : Nat) (t : Handle) (a : Access) :
    checkOutcome i t a r₁ = checkOutcome i t a r :=
  QuieterReply.outcome_eq ⟨congrArg (Except.map _) h.result_eq, h.notes_eq, h.quieter⟩ _

/-- An access that has been checked within a run is made where fewer entries are held, with an
operation that does nothing. -/
theorem Quieter.act_of_enter (h : s₁.Quieter s) {r : Reply (GuardedSession K) Nat}
    (hr : s.enter i t a = .ok r) :
    ∃ r₁, s₁.act (.call i (.access t a) none) = .ok r₁ ∧
      outcome (.call i (.access t a) none) r₁ = checkOutcome i t a r ∧
      r₁.state.Quieter r.state ∧ ∀ n, r.result = .ok n → (i, n) ∉ r₁.state.held := by
  obtain ⟨r₁, hr₁, hreply⟩ := h.enter hr
  have hcall : s₁.call i (.access t a) =
      .ok (conclude i (fun cells => (cells, .unit)) r₁) := map_eq_ok.mpr ⟨r₁, hr₁, rfl⟩
  refine ⟨_, map_eq_ok.mpr ⟨_, hcall, rfl⟩, ?_⟩
  rw [← hreply.checkOutcome_eq, ← hreply.result_eq]
  obtain ⟨state, result, notes⟩ := r₁
  cases result with
  | error f => exact ⟨rfl, hreply.quieter, fun n hn => by simp at hn⟩
  | ok n =>
    refine ⟨rfl, hreply.quieter.leave_left i n false, fun m hm => ?_⟩
    obtain rfl := Except.ok.inj hm
    exact not_mem_held_leave _ i n false

/-- The same things can be done one after the other. -/
theorem Runs.inTurn (h : s.Runs script log s') (hquieter : s₁.Quieter s) :
    ∃ s₁', s₁.InTurn log s₁' ∧ s₁'.Quieter s' := by
  induction h generalizing s₁ with
  | finish => exact ⟨s₁, .nil, hquieter⟩
  | absent _ _ ih | absentAccess _ _ ih => exact ih hquieter
  | act done _ ih =>
    obtain ⟨r₁, hact, hreply⟩ := hquieter.act (madeOut_eq_ok.mp done).2
    obtain ⟨s₁', hturn, hquieter'⟩ := ih hreply.quieter
    exact ⟨s₁', hreply.outcome_eq _ ▸ .cons hact hturn, hquieter'⟩
  | refused entered failed _ ih =>
    obtain ⟨r₁, hact, houtcome, hstate, -⟩ := hquieter.act_of_enter (madeOut_eq_ok.mp entered).2
    obtain ⟨s₁', hturn, hquieter'⟩ := ih hstate
    exact ⟨s₁', houtcome ▸ .cons hact hturn, hquieter'⟩
  | passed entered succeeded _ _ ihbody ihrest =>
    obtain ⟨r₁, hact, houtcome, hstate, hfree⟩ :=
      hquieter.act_of_enter (madeOut_eq_ok.mp entered).2
    obtain ⟨s₂, hbody, hquieter₂⟩ := ihbody hstate
    -- The entry is free where the things of the body are done in turn, so it may be released.
    have hfree₂ := fun hmem => hfree _ succeeded (hbody.held_sublist.subset hmem)
    obtain ⟨s₁', hturn, hquieter'⟩ := ihrest (hquieter₂.leave_right hfree₂ _)
    exact ⟨s₁', houtcome ▸ .cons hact (hbody.append hturn), hquieter'⟩

/-- The same script runs if no operation panics. -/
theorem Runs.calm (h : s.Runs script log s') (hquieter : s₁.Quieter s) :
    ∃ s₁', s₁.Runs script.calm log s₁' ∧ s₁'.Quieter s' := by
  induction h generalizing s₁ with
  | finish => exact ⟨s₁, .finish, hquieter⟩
  | absent absent _ ih =>
    obtain ⟨s₁', hrun, hquieter'⟩ := ih hquieter
    rw [attempt_eq_absent, ← hquieter.view_eq, ← attempt_eq_absent] at absent
    exact ⟨s₁', .absent absent hrun, hquieter'⟩
  | act done _ ih =>
    obtain ⟨hresolve, hact⟩ := madeOut_eq_ok.mp done
    obtain ⟨r₁, hact₁, hreply⟩ := hquieter.act hact
    obtain ⟨s₁', hrun, hquieter'⟩ := ih hreply.quieter
    rw [← hquieter.view_eq] at hresolve
    exact ⟨s₁', hreply.outcome_eq _ ▸ .act (madeOut_eq_ok.mpr ⟨hresolve, hact₁⟩) hrun, hquieter'⟩
  | absentAccess absent _ ih =>
    obtain ⟨s₁', hrun, hquieter'⟩ := ih hquieter
    rw [attemptEnter_eq_absent, ← hquieter.view_eq, ← attemptEnter_eq_absent] at absent
    exact ⟨s₁', .absentAccess absent hrun, hquieter'⟩
  | refused entered failed _ ih =>
    obtain ⟨hresolve, henter⟩ := madeOut_eq_ok.mp entered
    obtain ⟨r₁, henter₁, hreply⟩ := hquieter.enter henter
    obtain ⟨s₁', hrun, hquieter'⟩ := ih hreply.quieter
    rw [← hquieter.view_eq] at hresolve
    exact ⟨s₁', hreply.checkOutcome_eq .. ▸ .refused (madeOut_eq_ok.mpr ⟨hresolve, henter₁⟩)
      (hreply.result_eq.trans failed) hrun, hquieter'⟩
  | passed entered succeeded _ _ ihbody ihrest =>
    obtain ⟨hresolve, henter⟩ := madeOut_eq_ok.mp entered
    obtain ⟨r₁, henter₁, hreply⟩ := hquieter.enter henter
    obtain ⟨s₂, hbody, hquieter₂⟩ := ihbody hreply.quieter
    obtain ⟨s₁', hrest, hquieter'⟩ := ihrest (hquieter₂.leave _ _ false _)
    rw [← hquieter.view_eq] at hresolve
    exact ⟨s₁', hreply.checkOutcome_eq .. ▸ .passed (madeOut_eq_ok.mpr ⟨hresolve, henter₁⟩)
      (hreply.result_eq.trans succeeded) hbody hrest, hquieter'⟩

/-! ### What the session shows -/

theorem Sound.view_attempt (hs : s.Sound) {x' : Act ThreadRef K}
    {r : Reply (GuardedSession K) Value} (hr : s.attempt x' = .ok (x, r)) :
    s.view.perform? x' = some (outcome x r) ∧ r.state.Sound := by
  obtain ⟨hresolve, hact⟩ := madeOut_eq_ok.mp hr
  obtain ⟨hview, hsound⟩ := hs.view_act hact
  refine ⟨?_, hsound⟩
  rw [Session.perform?, hresolve, Option.bind_eq_bind, Option.bind_some, hview]
  rfl

theorem Sound.view_attemptEnter (hs : s.Sound) {t' : ThreadRef}
    {r : Reply (GuardedSession K) Nat} (hr : s.attemptEnter i t' a = .ok (t, r)) :
    s.view.perform? (.call i (.access t' a) none) = some (checkOutcome i t a r) ∧
      r.state.Sound := by
  obtain ⟨hresolve, henter⟩ := madeOut_eq_ok.mp hr
  obtain ⟨hview, hsound⟩ := hs.view_enter henter
  refine ⟨?_, hsound⟩
  have hact : s.view.act? (.call i (.access t a) none) =
      some ⟨r.state.view, r.result.map fun _ => .unit, r.notes⟩ := by
    rw [Session.act?_call, hview]
    obtain ⟨state, result, notes⟩ := r
    cases result <;> rfl
  simp only [Session.perform?, Act.resolve, Op.resolve, hresolve, Option.bind_eq_bind,
    Option.bind_some, hact, Option.pure_def]
  rfl

theorem after_checkOutcome (i : Nat) (t : Handle) (a : Access) (r : Reply (GuardedSession K) Nat) :
    (checkOutcome i t a r).after = r.state.view := rfl

/-- An access that fails its check is refused. -/
theorem Sound.view_refused (hs : s.Sound) {t' : ThreadRef} {r : Reply (GuardedSession K) Nat}
    {f : Failure Error} (hr : s.attemptEnter i t' a = .ok (t, r)) (hf : r.result = .error f) :
    (s.view.perform? (.call i (.access t' a) none)).filter (·.succeeded) = none := by
  rw [(hs.view_attemptEnter hr).1]
  simp [Option.filter, checkOutcome, outcome, Outcome.succeeded, hf, Except.map]

theorem Sound.view_passed (hs : s.Sound) {t' : ThreadRef} {r : Reply (GuardedSession K) Nat}
    {n : Nat} (hr : s.attemptEnter i t' a = .ok (t, r)) (hn : r.result = .ok n) :
    (s.view.perform? (.call i (.access t' a) none)).filter (·.succeeded) =
      some (checkOutcome i t a r) := by
  rw [(hs.view_attemptEnter hr).1]
  simp [Option.filter, checkOutcome, outcome, Outcome.succeeded, hn, Except.map]

/-- A script that runs does what the session shows that it does. -/
theorem Runs.view_run (h : s.Runs script log s') (hs : s.Sound) :
    s'.Sound ∧ (script.run s.view).1 = s'.view ∧ script.log s.view = log := by
  induction h with
  | finish => exact ⟨hs, rfl, rfl⟩
  | absent absent _ ih =>
    obtain ⟨hs', hrun, hlog⟩ := ih hs
    rw [attempt_eq_absent] at absent
    refine ⟨hs', ?_, ?_⟩
    · rw [Script.run, absent]
      exact hrun
    · rw [Script.log, Script.run, absent]
      exact hlog
  | act done _ ih =>
    obtain ⟨hview, hsound⟩ := hs.view_attempt done
    obtain ⟨hs', hrun, hlog⟩ := ih hsound
    refine ⟨hs', ?_, ?_⟩
    · rw [Script.run, hview]
      exact hrun
    · rw [Script.log, Script.run, hview]
      exact congrArg _ hlog
  | absentAccess absent _ ih =>
    obtain ⟨hs', hrun, hlog⟩ := ih hs
    rw [attemptEnter_eq_absent] at absent
    refine ⟨hs', ?_, ?_⟩
    · rw [Script.run, absent]
      exact hrun
    · rw [Session.log_refused (by rw [absent]; rfl), absent]
      exact hlog
  | refused entered failed _ ih =>
    obtain ⟨hview, hsound⟩ := hs.view_attemptEnter entered
    obtain ⟨hs', hrun, hlog⟩ := ih hsound
    have hrefused := hs.view_refused entered failed
    refine ⟨hs', ?_, ?_⟩
    · simp only [Script.run, hrefused]
      rw [hview]
      exact hrun
    · rw [Session.log_refused hrefused, hview]
      exact congrArg _ hlog
  | passed entered succeeded _ _ ihbody ihrest =>
    obtain ⟨hs₂, hbody, hinner⟩ := ihbody (hs.view_attemptEnter entered).2
    obtain ⟨hs', hrun, hlog⟩ := ihrest (hs₂.leave _ _ _)
    have hpassed := hs.view_passed entered succeeded
    refine ⟨hs', ?_, ?_⟩
    · simp only [Script.run, hpassed]
      rw [after_checkOutcome, hbody]
      exact hrun
    · rw [Session.log_passed hpassed, after_checkOutcome, hbody]
      exact congrArg₂ (fun inner log => _ :: (inner ++ log)) hinner hlog

/-! ### Sessions that can be reached -/

/-- A session that can be reached from a new one, also while accesses are under way. -/
inductive Reached : GuardedSession K → Prop
  | create {detectors : List (Rule × Config)} {cells : List (Address × Int)} {s : Session K}
      (created : Session.create K detectors cells = .ok s) : Reached (ofNew s)
  | act {s : GuardedSession K} {x : Act Handle K} {r : Reply (GuardedSession K) Value}
      (before : Reached s) (done : s.act x = .ok r) : Reached r.state
  | enter {s : GuardedSession K} {i : Nat} {t : Handle} {a : Access}
      {r : Reply (GuardedSession K) Nat} (before : Reached s) (entered : s.enter i t a = .ok r) :
      Reached r.state
  | leave {s : GuardedSession K} (before : Reached s) (i n : Nat) (panics : Bool) :
      Reached (s.leave i n panics)

theorem sound_ofNew (s : Session K) : (ofNew s).Sound := by
  intro any hany
  obtain ⟨⟨rule, d⟩, -, rfl⟩ := List.mem_map.mp hany
  exact EntryPool.sound_empty

theorem Reached.sound (h : s.Reached) : s.Sound := by
  induction h with
  | create => exact sound_ofNew _
  | act _ done ih => exact (ih.view_act done).2
  | enter _ entered ih => exact (ih.view_enter entered).2
  | leave _ i n panics ih => exact ih.leave i n panics

/-- No two accesses under way hold the same entry. -/
theorem Reached.nodup_held (h : s.Reached) : s.held.Nodup := by
  induction h with
  | create => exact List.nodup_nil
  | act _ done ih => exact ih.sublist (held_act done)
  | enter _ entered ih =>
    rw [held_enter entered]
    split
    · next hn => exact List.nodup_cons.mpr ⟨not_mem_held_of_enter entered hn, ih⟩
    · exact ih
  | leave _ i n panics ih => exact ih.filter _

theorem Runs.reached (h : s.Runs script log s') (hs : s.Reached) : s'.Reached := by
  induction h with
  | finish => exact hs
  | absent _ _ ih | absentAccess _ _ ih => exact ih hs
  | act done _ ih => exact ih (hs.act (madeOut_eq_ok.mp done).2)
  | refused entered _ _ ih => exact ih (hs.enter (madeOut_eq_ok.mp entered).2)
  | passed entered _ _ _ ihbody ihrest =>
    exact ihrest ((ihbody (hs.enter (madeOut_eq_ok.mp entered).2)).leave _ _ _)

/-- Nested accesses come to the same as accesses one after the other. Take a session that can be
reached, also from within an access, and a script that never comes to lock an entry that is held.
Then the script runs to its end, and the things that it does can be done in turn, each access with
an operation that does nothing and the things of its body right after it. They come to the same,
with the same to be seen after each of them and in the end. The same holds of the script where no
operation panics, and the session shows what comes of running the script in what it shows at first.
If the check of an access fails, nothing of its body is done. -/
theorem nested_accesses_linearize (h : s.Reached) (hfree : ¬ s.Blocks script) :
    ∃ log s', s.Runs script log s' ∧
      (∃ s'', s.InTurn log s'' ∧ s''.view = s'.view) ∧
      (∃ s'', s.Runs script.calm log s'' ∧ s''.view = s'.view) ∧
      (script.log s.view = log ∧ (script.run s.view).1 = s'.view) ∧
      ∀ i t' t a r f body panics rest, script = .access i t' a body panics rest →
        s.attemptEnter i t' a = .ok (t, r) → r.result = .error f →
        ∃ later, log = checkOutcome i t a r :: later ∧ r.state.Runs rest later s' := by
  obtain ⟨log, s', hrun⟩ := (s.blocks_or_runs script).resolve_left hfree
  obtain ⟨-, hfinal, hlog⟩ := hrun.view_run h.sound
  obtain ⟨s₁, hturn, hquieter₁⟩ := hrun.inTurn (Quieter.refl s)
  obtain ⟨s₂, hcalm, hquieter₂⟩ := hrun.calm (Quieter.refl s)
  refine ⟨log, s', hrun, ⟨s₁, hturn, hquieter₁.view_eq⟩, ⟨s₂, hcalm, hquieter₂.view_eq⟩,
    ⟨hlog, hfinal⟩, ?_⟩
  rintro i t' t a r f body panics rest rfl hentered hfailed
  exact hrun.of_refused hentered hfailed

/-- While the first thread writes, it exits, the location is forgotten, and the second thread
writes there as well, in an access that panics. So does the access around it. In between the first
thread fails to read. -/
def nested : Script 2 :=
  .act (.call 0 .start (some "a")) <| .act (.call 0 .start (some "b")) <|
    .access 0 (.name "a") ⟨7, .write⟩
      (.act (.call 0 (.exit (.name "a")) none) <| .act (.call 0 (.forget 7) none) <|
        .access 0 (.name "b") ⟨7, .write⟩ (.act (.store 0 (.name "b") 8 9) .finish) true <|
        .access 0 (.name "a") ⟨7, .read⟩ (.act (.call 0 (.forget 8) none) .finish) false .finish)
      true .finish

/-- What the script above does and what it comes to. -/
def nestedReplies : List (Act Handle 2 × Except (Failure Error) Value) :=
  [(.call 0 .start (some "a"), .ok (.handle ⟨0, 1⟩)),
    (.call 0 .start (some "b"), .ok (.handle ⟨0, 2⟩)),
    (.call 0 (.access ⟨0, 1⟩ ⟨7, .write⟩) none, .ok .unit),
    (.call 0 (.exit ⟨0, 1⟩) none, .ok .unit),
    (.call 0 (.forget 7) none, .ok (.flag true)),
    (.call 0 (.access ⟨0, 2⟩ ⟨7, .write⟩) none, .ok .unit),
    (.store 0 ⟨0, 2⟩ 8 9, .ok .unit),
    (.call 0 (.access ⟨0, 1⟩ ⟨7, .read⟩) none, .error (.error (.threadExited 1)))]

theorem linearized_nested :
    Session.create 2 [(.epoch, .default)] [(7, 5), (8, 1)] =
      .ok (Session.watched .epoch .default) ∧
    ¬ (ofNew (Session.watched .epoch .default)).Blocks nested ∧
    ∃ log s', (ofNew (Session.watched .epoch .default)).Runs nested log s' ∧
      log.map Outcome.reply = nestedReplies ∧
      (∃ s'', (ofNew (Session.watched .epoch .default)).InTurn log s'' ∧ s''.view = s'.view) ∧
      (∃ s'', (ofNew (Session.watched .epoch .default)).Runs nested.calm log s'' ∧
        s''.view = s'.view) ∧
      (nested.run (Session.watched .epoch .default)).1 = s'.view := by
  have h : Session.create 2 [(.epoch, .default)] [(7, 5), (8, 1)] =
      .ok (Session.watched .epoch .default) := rfl
  obtain ⟨log, s', hrun, hreplies⟩ : ∃ log s',
      (ofNew (Session.watched .epoch .default)).Runs nested log s' ∧
        log.map Outcome.reply = nestedReplies :=
    ⟨_, _, .act rfl (.act rfl (.passed rfl rfl (.act rfl (.act rfl
      (.passed rfl rfl (.act rfl .finish) (.refused rfl rfl .finish)))) .finish)),
      by decide +kernel⟩
  obtain ⟨log', s₁, hrun', hturn, hcalm, ⟨-, hfinal⟩, -⟩ :=
    nested_accesses_linearize (.create h) hrun.not_blocks
  obtain ⟨rfl, rfl⟩ := hrun.unique hrun'
  rw [view_ofNew h] at hfinal
  exact ⟨h, hrun.not_blocks, log, s', hrun, hreplies, hturn, hcalm, hfinal⟩

end GuardedSession

end RaceWatch
