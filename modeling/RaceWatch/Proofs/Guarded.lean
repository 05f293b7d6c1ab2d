import RaceWatch.Proofs.Idle
import RaceWatch.Proofs.Pool
import RaceWatch.Proofs.Transparency

/-!
A session in which accesses are under way. An access locks its entry for the check and holds it
until its operation has ended, so whoever else needs the entry in the meantime has to wait. If the
operation panics, the lock is poisoned. That is all that tells such a session from one that only
shows its detectors and cells: what is done in it is what is done in the other one, and the fewer
entries are held, the more can be done.
-/

namespace RaceWatch

/-- A detector with its entries in a pool, and the rule it works by. -/
abbrev AnyPooled (K : Nat) : Type := (rule : Rule) × PooledDetector rule K

/-- A session in which accesses are under way. An entry is referred to by the position of its
detector and its number. -/
structure GuardedSession (K : Nat) where
  detectors : List (AnyPooled K)
  cells : Std.ExtTreeMap Address Int
  names : Std.ExtTreeMap String Handle
  /-- The entries that are held. -/
  held : List (Nat × Nat)
  /-- The entries with poisoned locks. -/
  poisoned : List (Nat × Nat)

/-- Why a thing is not done. -/
inductive Obstacle where
  /-- It names a detector, a thread or a cell that does not exist. -/
  | absent
  /-- It has to lock an entry that is held already, and would wait for ever. -/
  | held

namespace GuardedSession

variable {K : Nat}

/-- The session as its detectors and cells show it. -/
def view (s : GuardedSession K) : Session K :=
  ⟨s.detectors.map fun ⟨rule, g⟩ => ⟨rule, g.view⟩, s.cells, s.names⟩

/-- A session in which nothing is monitored and nothing is held. -/
def ofNew (s : Session K) : GuardedSession K :=
  ⟨s.detectors.map fun ⟨rule, d⟩ => ⟨rule, .ofNew d⟩, s.cells, s.names, [], []⟩

/-- The same session with other entries held, and other locks poisoned. -/
def relock (s : GuardedSession K) (held poisoned : List (Nat × Nat)) : GuardedSession K :=
  { s with held, poisoned }

def detector (s : GuardedSession K) (i : Nat) : Except Obstacle (AnyPooled K) :=
  match s.detectors[i]? with
  | none => .error .absent
  | some any => .ok any

def put (s : GuardedSession K) (i : Nat) (any : AnyPooled K) : GuardedSession K :=
  { s with detectors := s.detectors.set i any }

def bind (s : GuardedSession K) (name? : Option String) (h : Handle) : GuardedSession K :=
  match name? with
  | none => s
  | some n => { s with names := s.names.insert n h }

/-- Do something to the state of the thread that a handle refers to. -/
def adjust (s : GuardedSession K) (h : Handle) (f : ThreadState K → ThreadState K) :
    GuardedSession K :=
  { s with
    detectors := s.detectors.map fun ⟨rule, g⟩ =>
      match g.registry.lookup h with
      | .error _ => ⟨rule, g⟩
      | .ok t => ⟨rule, { g with registry := g.registry.put (f t) }⟩ }

/-- What becomes of the lock of an entry once the check made under it has its result. It stays
held if the check passes, and a panic poisons it. -/
def settle (s : GuardedSession K) (i : Nat) (needed? : Option Nat) :
    Except (Failure Error) Nat → GuardedSession K
  | .ok n => s.relock ((i, n) :: s.held) s.poisoned
  | .error (.panic _) => s.relock s.held (needed?.toList.map (i, ·) ++ s.poisoned)
  | .error (.error _) => s

/-- Check an access under the lock of its entry, which is free. -/
def checkLocked {rule : Rule} (s : GuardedSession K) (i : Nat) (g : PooledDetector rule K)
    (t : Handle) (a : Access) : Reply (GuardedSession K) Nat :=
  let r := g.access (fun n => (i, n) ∈ s.poisoned) t a
  r.mapState fun g' => (s.put i ⟨rule, g'⟩).settle i (g.needed? t a) r.result

/-- Lock the entry of an access and check it. The number of the entry is handed back, which is
held from then on. -/
def enter (s : GuardedSession K) (i : Nat) (t : Handle) (a : Access) :
    Except Obstacle (Reply (GuardedSession K) Nat) :=
  match s.detector i with
  | .error o => .error o
  | .ok ⟨_, g⟩ =>
      if (g.needed? t a).any fun n => (i, n) ∈ s.held then .error .held
      else .ok (s.checkLocked i g t a)

/-- Release an entry once the operation of its access has ended. A panic poisons its lock. -/
def leave (s : GuardedSession K) (i n : Nat) (panics : Bool) : GuardedSession K :=
  s.relock (s.held.filter (· ≠ (i, n))) (if panics then (i, n) :: s.poisoned else s.poisoned)

/-- Run an operation that only uses the cells, if the check of its access has passed. -/
def conclude (i : Nat) (operation : Std.ExtTreeMap Address Int → Std.ExtTreeMap Address Int × Value)
    (r : Reply (GuardedSession K) Nat) : Reply (GuardedSession K) Value :=
  match r.result with
  | .error f => ⟨r.state, .error f, r.notes⟩
  | .ok n =>
      let (cells, value) := operation r.state.cells
      ⟨{ r.state with cells }.leave i n false, .ok value, r.notes⟩

/-- Tell one detector of an operation that is no access. -/
def tell (s : GuardedSession K) (i : Nat) (op : Op Handle) :
    Except Obstacle (Reply (GuardedSession K) Value) :=
  (s.detector i).map fun ⟨rule, g⟩ => (g.tell op).mapState fun g => s.put i ⟨rule, g⟩

/-- Tell one detector of an operation. An access has an operation that does nothing. -/
def call (s : GuardedSession K) (i : Nat) :
    Op Handle → Except Obstacle (Reply (GuardedSession K) Value)
  | .access t a => (s.enter i t a).map (conclude i fun cells => (cells, .unit))
  | op => s.tell i op

/-- Do one thing. -/
def act (s : GuardedSession K) : Act Handle K → Except Obstacle (Reply (GuardedSession K) Value)
  | .call i op name? => (s.call i op).map fun r =>
      ⟨match r.result with
        | .ok (.handle h) => r.state.bind name? h
        | _ => r.state, r.result, r.notes⟩
  | .load i t cell =>
      match s.cells[cell]? with
      | none => .error .absent
      | some value =>
          (s.enter i t ⟨cell, .read⟩).map (conclude i fun cells => (cells, .number value))
  | .store i t cell value =>
      if s.cells.contains cell then
        (s.enter i t ⟨cell, .write⟩).map
          (conclude i fun cells => (cells.insert cell value, .unit))
      else .error .absent
  | .recall i thread name? =>
      (s.detector i).map fun ⟨_, g⟩ => match g.registry.handle? thread with
        | none => .done s .unit []
        | some h => .done (s.bind name? h) (.handle h) []
  | .observe t clock => .ok (.done (s.adjust t (·.observe clock)) .unit [])
  | .look => .ok (.done s .unit [])

variable {s s₁ s' : GuardedSession K} {i n : Nat} {t : Handle} {a : Access} {x : Act Handle K}

/-! ### Checks under locks -/

theorem detector_eq_ok {any : AnyPooled K} :
    s.detector i = .ok any ↔ s.detectors[i]? = some any := by
  rw [detector]
  split <;> simp [*]

theorem detector_eq_error {o : Obstacle} :
    s.detector i = .error o ↔ o = .absent ∧ s.detectors[i]? = none := by
  rw [detector]
  split <;> simp [*, eq_comm]

theorem enter_eq_ok {r : Reply (GuardedSession K) Nat} : s.enter i t a = .ok r ↔
    ∃ (rule : Rule) (g : PooledDetector rule K), s.detector i = .ok ⟨rule, g⟩ ∧
      (∀ n, g.needed? t a = some n → (i, n) ∉ s.held) ∧ r = s.checkLocked i g t a := by
  constructor
  · intro h
    rw [enter] at h
    split at h
    · cases h
    · next rule g hd =>
      split at h
      · cases h
      · next hfree =>
        refine ⟨rule, g, hd, fun n hn hmem => hfree ?_, (Except.ok.inj h).symm⟩
        simp [hn, hmem]
  · rintro ⟨rule, g, hd, hfree, rfl⟩
    rw [enter, hd]
    refine if_neg fun hany => ?_
    cases hn : g.needed? t a with
    | none => simp [hn] at hany
    | some n => exact hfree n hn (by simpa [hn] using hany)

/-- An access waits for ever if the entry that it needs is held. -/
theorem enter_eq_held : s.enter i t a = .error .held ↔
    ∃ (rule : Rule) (g : PooledDetector rule K) (n : Nat), s.detector i = .ok ⟨rule, g⟩ ∧
      g.needed? t a = some n ∧ (i, n) ∈ s.held := by
  constructor
  · intro h
    rw [enter] at h
    split at h
    · next o hd =>
      obtain rfl := Except.error.inj h
      simpa using (detector_eq_error.mp hd).1
    · next rule g hd =>
      cases hn : g.needed? t a with
      | none => simp [hn] at h
      | some n => exact ⟨rule, g, n, hd, hn, by simpa [hn] using h⟩
  · rintro ⟨rule, g, n, hd, hn, hmem⟩
    rw [enter, hd]
    exact if_pos (by simpa [hn] using hmem)

theorem enter_eq_absent : s.enter i t a = .error .absent ↔ s.detectors[i]? = none := by
  constructor
  · intro h
    rw [enter] at h
    split at h
    · next o hd => exact (detector_eq_error.mp hd).2
    · split at h <;> cases h
  · intro h
    rw [enter, detector_eq_error.mpr ⟨rfl, h⟩]

/-! ### Things that do not exist -/

theorem detector?_view (s : GuardedSession K) (i : Nat) :
    s.view.detector? i = s.detectors[i]?.map fun any => ⟨any.1, any.2.view⟩ :=
  List.getElem?_map

theorem detector?_view_eq {rule : Rule} {g : PooledDetector rule K}
    (hd : s.detector i = .ok ⟨rule, g⟩) : s.view.detector? i = some ⟨rule, g.view⟩ := by
  rw [detector?_view, detector_eq_ok.mp hd]
  rfl

theorem call?_view_eq_none {op : Op Handle} :
    s.view.call? i op = none ↔ s.detectors[i]? = none := by
  rw [Session.call?, Option.map_eq_none_iff, detector?_view, Option.map_eq_none_iff]

theorem call_eq_absent {op : Op Handle} :
    s.call i op = .error .absent ↔ s.detectors[i]? = none := by
  cases op with
  | access t a => exact map_eq_error.trans enter_eq_absent
  | start | fork | join | exit | acquire | release | forgetLock | init | forget =>
    exact map_eq_error.trans (detector_eq_error.trans (and_iff_right rfl))

theorem act_eq_absent : s.act x = .error .absent ↔ s.view.act? x = none := by
  cases x with
  | call i op name? =>
    rw [Session.act?_call, Option.map_eq_none_iff, call?_view_eq_none]
    exact map_eq_error.trans call_eq_absent
  | load i t cell =>
    rw [act]
    cases hcell : s.cells[cell]? with
    | none =>
      refine iff_of_true rfl ?_
      rw [Session.act?, show s.view.cells[cell]? = none from hcell]
      rfl
    | some value =>
      rw [Session.act?_load hcell, Option.map_eq_none_iff, call?_view_eq_none]
      exact map_eq_error.trans enter_eq_absent
  | store i t cell value =>
    have hcells : s.view.cells = s.cells := rfl
    rw [act, Session.act?_store, hcells]
    split
    · rw [Option.map_eq_none_iff, call?_view_eq_none]
      exact map_eq_error.trans enter_eq_absent
    · exact iff_of_true rfl rfl
  | «recall» i thread name? =>
    refine map_eq_error.trans (detector_eq_error.trans ((and_iff_right rfl).trans ?_))
    rw [Session.act?, detector?_view]
    cases s.detectors[i]? with
    | none => exact iff_of_true rfl rfl
    | some any => simp
  | observe t clock => simp [act, Session.act?]
  | look => simp [act, Session.act?]

/-! ### With fewer entries held -/

/-- The first session differs from the second one only in that fewer entries are held, and in
which locks are poisoned. -/
def Quieter (s₁ s : GuardedSession K) : Prop :=
  ∃ held poisoned, held ⊆ s.held ∧ s₁ = s.relock held poisoned

theorem Quieter.refl (s : GuardedSession K) : s.Quieter s := ⟨s.held, s.poisoned, fun _ h => h, rfl⟩

theorem Quieter.view_eq (h : s₁.Quieter s) : s₁.view = s.view := by
  obtain ⟨held, poisoned, -, rfl⟩ := h
  rfl

theorem Quieter.leave_left (h : s₁.Quieter s) (i n : Nat) (panics : Bool) :
    (s₁.leave i n panics).Quieter s := by
  obtain ⟨held, poisoned, hsub, rfl⟩ := h
  exact ⟨_, _, fun x hx => hsub (List.mem_of_mem_filter hx), rfl⟩

theorem Quieter.leave_right (h : s₁.Quieter s) (hn : (i, n) ∉ s₁.held) (panics : Bool) :
    s₁.Quieter (s.leave i n panics) := by
  obtain ⟨held, poisoned, hsub, rfl⟩ := h
  refine ⟨held, poisoned, fun x hx => List.mem_filter.mpr ⟨hsub hx, ?_⟩, rfl⟩
  exact decide_eq_true fun heq => hn (heq ▸ hx)

theorem not_mem_held_leave (s : GuardedSession K) (i n : Nat) (panics : Bool) :
    (i, n) ∉ (s.leave i n panics).held := by
  simp [leave, relock]

theorem Quieter.leave (h : s₁.Quieter s) (i n : Nat) (panics panics' : Bool) :
    (s₁.leave i n panics).Quieter (s.leave i n panics') :=
  (h.leave_left i n panics).leave_right (s₁.not_mem_held_leave i n panics) panics'

theorem Quieter.put (h : s₁.Quieter s) (i : Nat) (any : AnyPooled K) :
    (s₁.put i any).Quieter (s.put i any) := by
  obtain ⟨held, poisoned, hsub, rfl⟩ := h
  exact ⟨held, poisoned, hsub, rfl⟩

theorem Quieter.settle (h : s₁.Quieter s) (i : Nat) (needed? : Option Nat)
    (result : Except (Failure Error) Nat) :
    (s₁.settle i needed? result).Quieter (s.settle i needed? result) := by
  obtain ⟨held, poisoned, hsub, rfl⟩ := h
  rcases result with ⟨_ | _⟩ | n
  · exact ⟨held, poisoned, hsub, rfl⟩
  · exact ⟨held, _, hsub, rfl⟩
  · exact ⟨(i, n) :: held, poisoned, List.cons_subset_cons _ hsub, rfl⟩

/-- The same is handed back, in sessions that differ only in what is held and poisoned. -/
structure QuieterReply {α : Type} (r₁ r : Reply (GuardedSession K) α) : Prop where
  result_eq : r₁.result = r.result
  notes_eq : r₁.notes = r.notes
  quieter : r₁.state.Quieter r.state

theorem Quieter.checkLocked {rule : Rule} (h : s₁.Quieter s) (i : Nat)
    (g : PooledDetector rule K) (t : Handle) (a : Access) :
    QuieterReply (s₁.checkLocked i g t a) (s.checkLocked i g t a) := by
  rw [GuardedSession.checkLocked, g.access_congr _ (fun n => (i, n) ∈ s.poisoned)]
  exact ⟨rfl, rfl, (h.put i _).settle i _ _⟩

/-- With fewer entries held, a check is made as well, with the same result. -/
theorem Quieter.enter (h : s₁.Quieter s) {r : Reply (GuardedSession K) Nat}
    (hr : s.enter i t a = .ok r) : ∃ r₁, s₁.enter i t a = .ok r₁ ∧ QuieterReply r₁ r := by
  obtain ⟨rule, g, hd, hfree, rfl⟩ := enter_eq_ok.mp hr
  have hreply := h.checkLocked i g t a
  obtain ⟨held, poisoned, hsub, rfl⟩ := h
  exact ⟨_, enter_eq_ok.mpr ⟨rule, g, hd, fun n hn hmem => hfree n hn (hsub hmem), rfl⟩, hreply⟩

theorem Quieter.cells_eq (h : s₁.Quieter s) : s₁.cells = s.cells := by
  obtain ⟨held, poisoned, -, rfl⟩ := h
  rfl

theorem Quieter.setCells (h : s₁.Quieter s) (cells : Std.ExtTreeMap Address Int) :
    ({ s₁ with cells } : GuardedSession K).Quieter { s with cells } := by
  obtain ⟨held, poisoned, hsub, rfl⟩ := h
  exact ⟨held, poisoned, hsub, rfl⟩

/-- An operation that only uses the cells does the same, and the entry is released again. -/
theorem QuieterReply.conclude {r₁ r : Reply (GuardedSession K) Nat} (h : QuieterReply r₁ r)
    (i : Nat) (operation : Std.ExtTreeMap Address Int → Std.ExtTreeMap Address Int × Value) :
    QuieterReply (conclude i operation r₁) (conclude i operation r) := by
  rw [GuardedSession.conclude, GuardedSession.conclude, h.result_eq, h.notes_eq,
    h.quieter.cells_eq]
  cases r.result with
  | error f => exact ⟨rfl, rfl, h.quieter⟩
  | ok n => exact ⟨rfl, rfl, (h.quieter.setCells _).leave i n false false⟩

theorem Quieter.enter_conclude (h : s₁.Quieter s) {r : Reply (GuardedSession K) Value}
    {operation : Std.ExtTreeMap Address Int → Std.ExtTreeMap Address Int × Value}
    (hr : (s.enter i t a).map (conclude i operation) = .ok r) :
    ∃ r₁, (s₁.enter i t a).map (conclude i operation) = .ok r₁ ∧ QuieterReply r₁ r := by
  obtain ⟨r₀, hr₀, rfl⟩ := map_eq_ok.mp hr
  obtain ⟨r₁, hr₁, hreply⟩ := h.enter hr₀
  exact ⟨_, map_eq_ok.mpr ⟨r₁, hr₁, rfl⟩, hreply.conclude i operation⟩

theorem Quieter.detector_eq (h : s₁.Quieter s) (i : Nat) : s₁.detector i = s.detector i := by
  obtain ⟨held, poisoned, -, rfl⟩ := h
  rfl

theorem Quieter.tell (h : s₁.Quieter s) {op : Op Handle} {r : Reply (GuardedSession K) Value}
    (hr : s.tell i op = .ok r) : ∃ r₁, s₁.tell i op = .ok r₁ ∧ QuieterReply r₁ r := by
  obtain ⟨any, hd, rfl⟩ := map_eq_ok.mp hr
  rw [GuardedSession.tell, h.detector_eq, hd]
  exact ⟨_, rfl, rfl, rfl, h.put i _⟩

theorem Quieter.call (h : s₁.Quieter s) {op : Op Handle} {r : Reply (GuardedSession K) Value}
    (hr : s.call i op = .ok r) : ∃ r₁, s₁.call i op = .ok r₁ ∧ QuieterReply r₁ r := by
  cases op with
  | access t a => exact h.enter_conclude hr
  | start | fork | join | exit | acquire | release | forgetLock | init | forget => exact h.tell hr

theorem Quieter.bind (h : s₁.Quieter s) (name? : Option String) (t : Handle) :
    (s₁.bind name? t).Quieter (s.bind name? t) := by
  obtain ⟨held, poisoned, hsub, rfl⟩ := h
  cases name? with
  | none => exact ⟨held, poisoned, hsub, rfl⟩
  | some n => exact ⟨held, poisoned, hsub, rfl⟩

theorem Quieter.act (h : s₁.Quieter s) {r : Reply (GuardedSession K) Value}
    (hr : s.act x = .ok r) : ∃ r₁, s₁.act x = .ok r₁ ∧ QuieterReply r₁ r := by
  cases x with
  | call i op name? =>
    obtain ⟨r₀, hcall, rfl⟩ := map_eq_ok.mp hr
    obtain ⟨r₁, hcall₁, hresult, hnotes, hquieter⟩ := h.call hcall
    refine ⟨_, map_eq_ok.mpr ⟨r₁, hcall₁, rfl⟩, hresult, hnotes, ?_⟩
    dsimp only
    rw [hresult]
    split
    · exact hquieter.bind name? _
    · exact hquieter
  | load i t cell =>
    rw [GuardedSession.act] at hr ⊢
    rw [h.cells_eq]
    cases hcell : s.cells[cell]? with
    | none => simp [hcell] at hr
    | some value =>
      rw [hcell] at hr
      exact h.enter_conclude hr
  | store i t cell value =>
    rw [GuardedSession.act] at hr ⊢
    rw [h.cells_eq]
    split at hr
    · next hcell =>
      rw [if_pos hcell]
      exact h.enter_conclude hr
    · cases hr
  | «recall» i thread name? =>
    obtain ⟨⟨rule, g⟩, hd, rfl⟩ := map_eq_ok.mp hr
    rw [GuardedSession.act, h.detector_eq, hd]
    refine ⟨_, rfl, ?_⟩
    dsimp only
    cases g.registry.handle? thread with
    | none => exact ⟨rfl, rfl, h⟩
    | some t => exact ⟨rfl, rfl, h.bind name? t⟩
  | observe t clock =>
    obtain rfl := Except.ok.inj hr
    obtain ⟨held, poisoned, hsub, rfl⟩ := h
    exact ⟨_, rfl, rfl, rfl, held, poisoned, hsub, rfl⟩
  | look =>
    obtain rfl := Except.ok.inj hr
    exact ⟨_, rfl, rfl, rfl, h⟩

/-! ### What is held -/

theorem held_bind (s : GuardedSession K) (name? : Option String) (t : Handle) :
    (s.bind name? t).held = s.held := by
  cases name? <;> rfl

theorem held_settle (s : GuardedSession K) (i : Nat) (needed? : Option Nat)
    (result : Except (Failure Error) Nat) : (s.settle i needed? result).held =
      match result with
      | .ok n => (i, n) :: s.held
      | .error _ => s.held := by
  rcases result with ⟨_ | _⟩ | n <;> rfl

/-- A check that passes goes on to hold its entry, and one that fails holds nothing. -/
theorem held_enter {r : Reply (GuardedSession K) Nat} (hr : s.enter i t a = .ok r) :
    r.state.held =
      match r.result with
      | .ok n => (i, n) :: s.held
      | .error _ => s.held := by
  obtain ⟨rule, g, -, -, rfl⟩ := enter_eq_ok.mp hr
  exact held_settle _ i _ _

/-- Whoever holds an entry after a check, nobody has held it before. -/
theorem not_mem_held_of_enter {r : Reply (GuardedSession K) Nat} (hr : s.enter i t a = .ok r)
    (hn : r.result = .ok n) : (i, n) ∉ s.held := by
  obtain ⟨rule, g, -, hfree, rfl⟩ := enter_eq_ok.mp hr
  exact hfree n (PooledDetector.needed?_of_result hn)

/-- An access is over once its operation has ended, and it holds its entry no longer. -/
theorem held_enter_conclude {r : Reply (GuardedSession K) Value}
    {operation : Std.ExtTreeMap Address Int → Std.ExtTreeMap Address Int × Value}
    (hr : (s.enter i t a).map (conclude i operation) = .ok r) :
    r.state.held.Sublist s.held := by
  obtain ⟨r₀, hr₀, rfl⟩ := map_eq_ok.mp hr
  have hheld := held_enter hr₀
  rw [conclude]
  cases hresult : r₀.result with
  | error f =>
    rw [hresult] at hheld
    exact hheld ▸ List.Sublist.refl _
  | ok n =>
    rw [hresult] at hheld
    simp only [leave, relock, hheld, List.filter_cons, ne_eq, not_true, decide_false]
    exact List.filter_sublist

/-- Nothing that is done by itself goes on to hold an entry. -/
theorem held_act {r : Reply (GuardedSession K) Value} (hr : s.act x = .ok r) :
    r.state.held.Sublist s.held := by
  cases x with
  | call i op name? =>
    obtain ⟨r₀, hcall, rfl⟩ := map_eq_ok.mp hr
    have hheld : r₀.state.held.Sublist s.held := by
      cases op with
      | access t a => exact held_enter_conclude hcall
      | start | fork | join | exit | acquire | release | forgetLock | init | forget =>
        obtain ⟨any, -, rfl⟩ := map_eq_ok.mp hcall
        exact List.Sublist.refl _
    dsimp only
    split
    · rwa [held_bind]
    · exact hheld
  | load i t cell =>
    rw [act] at hr
    split at hr
    · cases hr
    · exact held_enter_conclude hr
  | store i t cell value =>
    rw [act] at hr
    split at hr
    · exact held_enter_conclude hr
    · cases hr
  | «recall» i thread name? =>
    obtain ⟨⟨rule, g⟩, -, rfl⟩ := map_eq_ok.mp hr
    dsimp only
    split
    · exact List.Sublist.refl _
    · rw [Reply.state_done, held_bind]
  | observe | look =>
    obtain rfl := Except.ok.inj hr
    exact List.Sublist.refl _

/-! ### What the session shows -/

/-- The entries of each detector are numbered soundly. -/
def Sound (s : GuardedSession K) : Prop := ∀ any ∈ s.detectors, any.2.pool.Sound

theorem Sound.of_detector (hs : s.Sound) {rule : Rule} {g : PooledDetector rule K}
    (hd : s.detector i = .ok ⟨rule, g⟩) : g.pool.Sound :=
  hs ⟨rule, g⟩ (List.mem_of_getElem? (detector_eq_ok.mp hd))

theorem Sound.put (hs : s.Sound) {rule : Rule} {g : PooledDetector rule K} (hg : g.pool.Sound)
    (i : Nat) : (s.put i ⟨rule, g⟩).Sound := by
  intro any hany
  rcases List.mem_or_eq_of_mem_set hany with hmem | rfl
  · exact hs any hmem
  · exact hg

theorem Sound.settle (hs : s.Sound) (i : Nat) (needed? : Option Nat)
    (result : Except (Failure Error) Nat) : (s.settle i needed? result).Sound := by
  rcases result with ⟨_ | _⟩ | n <;> exact hs

theorem Sound.bind (hs : s.Sound) (name? : Option String) (t : Handle) :
    (s.bind name? t).Sound := by
  cases name? <;> exact hs

theorem Sound.adjust (hs : s.Sound) (t : Handle) (f : ThreadState K → ThreadState K) :
    (s.adjust t f).Sound := by
  intro any hany
  obtain ⟨⟨rule, g⟩, hg, rfl⟩ := List.mem_map.mp hany
  have hsound := hs _ hg
  dsimp only
  cases g.registry.lookup t <;> exact hsound

theorem Sound.leave (hs : s.Sound) (i n : Nat) (panics : Bool) : (s.leave i n panics).Sound := hs

/-- A new session with nothing held shows itself. -/
theorem view_ofNew {detectors : List (Rule × Config)} {cells : List (Address × Int)}
    {s : Session K} (h : Session.create K detectors cells = .ok s) : (ofNew s).view = s := by
  have hnew (any) (hany : any ∈ s.detectors) : (PooledDetector.ofNew any.2).view = any.2 := by
    obtain ⟨i, hi⟩ := List.mem_iff_getElem?.mp hany
    have hlt : i < detectors.length := by
      refine Nat.lt_of_not_le fun hle => ?_
      have hnone := (Session.of_create h).2.2 i hle
      rw [Session.detector?, hi] at hnone
      cases hnone
    obtain ⟨d, hd, hat⟩ := Session.exists_detector?_of_create h (List.getElem?_eq_getElem hlt)
    obtain rfl := Option.some.inj (hi.symm.trans hat)
    obtain ⟨-, rfl⟩ := Detector.create_eq_ok hd
    simp only [PooledDetector.ofNew, PooledDetector.view, EntryPool.view_empty]
  have hdetectors : (ofNew s).view.detectors = s.detectors := by
    simp only [view, ofNew, List.map_map]
    refine (List.map_congr_left fun any hany => ?_).trans (List.map_id _)
    exact congrArg (Sigma.mk any.1) (hnew any hany)
  calc (ofNew s).view = ⟨(ofNew s).view.detectors, s.cells, s.names⟩ := rfl
    _ = s := by rw [hdetectors]

theorem view_put (s : GuardedSession K) (i : Nat) {rule : Rule} (g : PooledDetector rule K) :
    (s.put i ⟨rule, g⟩).view =
      { s.view with detectors := s.view.detectors.set i ⟨rule, g.view⟩ } := by
  simp [view, GuardedSession.put, List.map_set]

theorem view_settle (s : GuardedSession K) (i : Nat) (needed? : Option Nat)
    (result : Except (Failure Error) Nat) : (s.settle i needed? result).view = s.view := by
  rcases result with ⟨_ | _⟩ | n <;> rfl

theorem view_bind (s : GuardedSession K) (name? : Option String) (t : Handle) :
    (s.bind name? t).view = s.view.bind name? t := by
  cases name? <;> rfl

theorem view_adjust (s : GuardedSession K) (t : Handle) (f : ThreadState K → ThreadState K) :
    (s.adjust t f).view = s.view.adjust t f := by
  simp only [view, adjust, Session.adjust, List.map_map]
  congr 1
  refine List.map_congr_left fun any _ => ?_
  obtain ⟨rule, g⟩ := any
  simp only [Function.comp_apply, PooledDetector.view]
  cases g.registry.lookup t <;> rfl

theorem view_conclude (i : Nat)
    (operation : Std.ExtTreeMap Address Int → Std.ExtTreeMap Address Int × Value)
    (r : Reply (GuardedSession K) Nat) : (conclude i operation r).mapState view =
      ⟨match r.result with
        | .error _ => r.state.view
        | .ok _ => { r.state.view with cells := (operation r.state.cells).1 },
      r.result.map fun _ => (operation r.state.cells).2, r.notes⟩ := by
  obtain ⟨state, result, notes⟩ := r
  cases result <;> rfl

/-- A check under a lock is the check that the session shows. -/
theorem Sound.view_enter (hs : s.Sound) {r : Reply (GuardedSession K) Nat}
    (hr : s.enter i t a = .ok r) :
    s.view.call? i (.access t a) = some ((r.mapState view).mapResult fun _ => .unit) ∧
      r.state.Sound := by
  obtain ⟨rule, g, hd, -, rfl⟩ := enter_eq_ok.mp hr
  have hg := hs.of_detector hd
  constructor
  · refine Session.call?_eq_some.mpr ⟨rule, g.view, detector?_view_eq hd, ?_⟩
    have haccess := PooledDetector.view_access hg (fun n => (i, n) ∈ s.poisoned) t a
    rw [checkLocked, show g.view.step (.access t a) =
      (g.view.access t a).mapResult fun () => .unit from rfl, ← haccess]
    generalize g.access _ t a = r
    obtain ⟨g', result, notes⟩ := r
    simp only [Reply.mapState, Reply.mapResult, view_settle, view_put]
    cases result <;> rfl
  · exact (hs.put (PooledDetector.sound_access hg _ t a) i).settle i _ _

theorem Sound.view_tell (hs : s.Sound) {op : Op Handle} (hop : ∀ t a, op ≠ .access t a)
    {r : Reply (GuardedSession K) Value} (hr : s.tell i op = .ok r) :
    s.view.call? i op = some (r.mapState view) ∧ r.state.Sound := by
  obtain ⟨⟨rule, g⟩, hd, rfl⟩ := map_eq_ok.mp hr
  have hg := hs.of_detector hd
  constructor
  · refine Session.call?_eq_some.mpr ⟨rule, g.view, detector?_view_eq hd, ?_⟩
    rw [← PooledDetector.view_tell hg hop]
    simp only [Reply.mapState, view_put]
  · exact hs.put (PooledDetector.sound_tell hg op) i

theorem Sound.conclude {r : Reply (GuardedSession K) Nat} (hr : r.state.Sound) (i : Nat)
    (operation : Std.ExtTreeMap Address Int → Std.ExtTreeMap Address Int × Value) :
    (conclude i operation r).state.Sound := by
  rw [GuardedSession.conclude]
  split <;> exact hr

theorem Sound.view_call (hs : s.Sound) {op : Op Handle} {r : Reply (GuardedSession K) Value}
    (hr : s.call i op = .ok r) : s.view.call? i op = some (r.mapState view) ∧ r.state.Sound := by
  cases op with
  | access t a =>
    obtain ⟨r₀, hr₀, rfl⟩ := map_eq_ok.mp hr
    obtain ⟨hcall, hsound⟩ := hs.view_enter hr₀
    refine ⟨hcall.trans (congrArg some ?_), hsound.conclude i _⟩
    rw [view_conclude]
    obtain ⟨state, result, notes⟩ := r₀
    cases result <;> rfl
  | start | fork | join | exit | acquire | release | forgetLock | init | forget =>
    exact hs.view_tell (by simp) hr

/-- What is done is what the session shows. -/
theorem Sound.view_act (hs : s.Sound) {r : Reply (GuardedSession K) Value}
    (hr : s.act x = .ok r) : s.view.act? x = some (r.mapState view) ∧ r.state.Sound := by
  cases x with
  | call i op name? =>
    obtain ⟨⟨state, result, notes⟩, hcall, rfl⟩ := map_eq_ok.mp hr
    obtain ⟨hview, hsound⟩ := hs.view_call hcall
    rw [Session.act?_call, hview]
    cases result with
    | error f => exact ⟨rfl, hsound⟩
    | ok v =>
      cases v with
      | handle h =>
        refine ⟨?_, hsound.bind name? h⟩
        simp only [Reply.mapState, Option.map_some, view_bind]
      | unit | flag | number => exact ⟨rfl, hsound⟩
  | load i t cell =>
    rw [act] at hr
    split at hr
    · cases hr
    · next value hcell =>
      obtain ⟨⟨state, result, notes⟩, hr₀, rfl⟩ := map_eq_ok.mp hr
      obtain ⟨hcall, hsound⟩ := hs.view_enter hr₀
      refine ⟨?_, hsound.conclude i _⟩
      rw [Session.act?_load hcell, hcall, view_conclude]
      cases result <;> rfl
  | store i t cell value =>
    rw [act] at hr
    split at hr
    · next hcell =>
      obtain ⟨⟨state, result, notes⟩, hr₀, rfl⟩ := map_eq_ok.mp hr
      obtain ⟨hcall, hsound⟩ := hs.view_enter hr₀
      refine ⟨?_, hsound.conclude i _⟩
      rw [Session.act?_store, show s.view.cells.contains cell = true from hcell, hcall,
        view_conclude]
      cases result <;> rfl
    · cases hr
  | «recall» i thread name? =>
    obtain ⟨⟨rule, g⟩, hd, rfl⟩ := map_eq_ok.mp hr
    rw [Session.act?, detector?_view_eq hd]
    have hhandle : g.view.registry.handle? thread = g.registry.handle? thread := rfl
    simp only [Option.bind_eq_bind, Option.bind_some, hhandle]
    cases g.registry.handle? thread with
    | none => exact ⟨rfl, hs⟩
    | some h =>
      refine ⟨?_, hs.bind name? h⟩
      simp only [Reply.done, Reply.mapState, view_bind]
      rfl
  | observe t clock =>
    obtain rfl := Except.ok.inj hr
    refine ⟨?_, hs.adjust t _⟩
    rw [Session.act?, ← view_adjust]
    rfl
  | look =>
    obtain rfl := Except.ok.inj hr
    exact ⟨rfl, hs⟩

end GuardedSession

end RaceWatch
