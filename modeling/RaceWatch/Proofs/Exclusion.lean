import RaceWatch.Proofs.Flagged
import RaceWatch.Proofs.Program

/-!
Locations that are guarded by a lock. Whoever holds the lock has all earlier accesses to
the location in its past, and while nobody holds it the lock itself does. So all accesses
are ordered and no race is found, whatever else goes on. And since nobody else writes
while the lock is held, a thread that loads a value and stores one more finds the value
still there.
-/

namespace RaceWatch

namespace Op

/-- Who holds a lock after an operation, from who held it before. A thread holds it from
an acquire to its next release. -/
def rehold (lock : Address) (holder? : Option Nat) : Op Handle → Option Nat
  | .acquire l t => if l = lock then some t.thread else holder?
  | .release l t => if l = lock ∧ holder? = some t.thread then none else holder?
  | .start | .fork .. | .join .. | .exit _ | .forgetLock _ | .access .. | .init _ | .forget _ =>
      holder?

/-- Whether an operation keeps to what a lock is for: it is acquired only when nobody
holds it, released only by its holder and never forgotten, and only its holder accesses
the location. -/
def Respects (lock x : Address) (holder? : Option Nat) : Op Handle → Prop
  | .acquire l _ => l = lock → holder? = none
  | .release l t => l = lock → holder? = some t.thread
  | .forgetLock l => l ≠ lock
  | .access t a => a.address = x → holder? = some t.thread
  | .start | .fork .. | .join .. | .exit _ | .init _ | .forget _ => True

instance (lock x : Address) (holder? : Option Nat) :
    (op : Op Handle) → Decidable (op.Respects lock x holder?)
  | .acquire l _ => inferInstanceAs (Decidable (l = lock → holder? = none))
  | .release l t => inferInstanceAs (Decidable (l = lock → holder? = some t.thread))
  | .forgetLock l => inferInstanceAs (Decidable (l ≠ lock))
  | .access t a => inferInstanceAs (Decidable (a.address = x → holder? = some t.thread))
  | .start | .fork .. | .join .. | .exit _ | .init _ | .forget _ => inferInstanceAs (Decidable True)

/-- A thread holds the lock until it releases it. -/
theorem Respects.rehold_eq {lock x : Address} {t : Nat} {op : Op Handle}
    (h : op.Respects lock x (some t)) (hkeep : ∀ w, w.thread = t → op ≠ .release lock w) :
    op.rehold lock (some t) = some t := by
  cases op with
  | acquire l u =>
    refine if_neg fun hl => ?_
    exact absurd (h hl) (by simp)
  | release l u =>
    refine if_neg ?_
    rintro ⟨rfl, hu⟩
    exact hkeep u (Option.some.inj hu).symm rfl
  | start | fork | join | exit | forgetLock | access | init | forget => rfl

end Op

/-- Who holds a lock after some operations. -/
def holder? (lock : Address) (ops : List (Op Handle)) : Option Nat :=
  ops.foldl (Op.rehold lock) none

theorem holder?_concat (lock : Address) (ops : List (Op Handle)) (op : Op Handle) :
    holder? lock (ops ++ [op]) = op.rehold lock (holder? lock ops) := by
  simp [holder?]

/-- Whether a lock guards a location during some operations. -/
def Guards (lock x : Address) (ops : List (Op Handle)) : Prop :=
  ∀ n, (h : n < ops.length) → ops[n].Respects lock x (holder? lock (ops.take n))

instance (lock x : Address) (ops : List (Op Handle)) : Decidable (Guards lock x ops) :=
  inferInstanceAs (Decidable (∀ n, (h : n < ops.length) → _))

namespace Guards

variable {lock x : Address} {ops ops' : List (Op Handle)}

theorem respects (h : Guards lock x ops) {n : Nat} {op : Op Handle} (hn : ops[n]? = some op) :
    op.Respects lock x (holder? lock (ops.take n)) := by
  obtain ⟨hlt, rfl⟩ := List.getElem?_eq_some_iff.mp hn
  exact h n hlt

theorem of_append (h : Guards lock x (ops ++ ops')) : Guards lock x ops := by
  intro n hn
  have hr := h.respects (List.getElem?_append_left hn ▸ List.getElem?_eq_getElem hn)
  rwa [List.take_append_of_le_length hn.le] at hr

theorem last {op : Op Handle} (h : Guards lock x (ops ++ [op])) :
    op.Respects lock x (holder? lock ops) := by
  have hr := h.respects (List.getElem?_concat_length)
  rwa [List.take_left] at hr

end Guards

/-! ### The accesses are ordered -/

/-- Where the knowledge of the earlier accesses is kept: with the holder of the lock, or
with the lock while nobody holds it. -/
def Place.ofHolder (lock : Address) : Option Nat → Place
  | none => .lock lock
  | some t => .thread t

namespace Chronicle

variable {H : Chronicle} {lock x : Address} {i j n : Nat} {e f : Event} {holder : Option Nat}

/-- An operation that neither acquires nor replaces the lock. -/
theorem InPast.stays (h : H.InPast n i (.ofHolder lock holder)) (hn : H.At n f)
    (ht : f.op.target? ≠ some (.lock lock)) : H.InPast (n + 1) i (.ofHolder lock holder) := by
  refine h.succ fun e he htarget => ?_
  obtain rfl := hn.unique he
  cases holder with
  | none => exact absurd htarget ht
  | some t => exact ⟨t, rfl⟩

/-- An acquire brings the past of the lock to the new holder, and a release brings the
past of the holder to the lock. -/
theorem InPast.rehold (h : H.InPast n i (.ofHolder lock holder)) (hn : H.At n f)
    (hr : f.op.Respects lock x holder) :
    H.InPast (n + 1) i (.ofHolder lock (f.op.rehold lock holder)) := by
  cases hop : f.op with
  | acquire l t =>
    rw [hop] at hr
    by_cases hl : l = lock
    · subst hl
      obtain rfl := hr rfl
      rw [Op.rehold, if_pos rfl]
      have hsource : f.op.source? = some (.lock l) := by rw [hop]; rfl
      have htarget : f.op.target? = some (.thread t.thread) := by rw [hop]; rfl
      exact inPast_of_target hn hsource htarget (.inr (h.happensBefore hn ⟨t, hop⟩))
    · rw [Op.rehold, if_neg hl]
      exact h.stays hn (by simp [hop, Op.target?])
  | release l t =>
    rw [hop] at hr
    by_cases hl : l = lock
    · subst hl
      obtain rfl := hr rfl
      rw [Op.rehold, if_pos ⟨rfl, rfl⟩]
      have hasks : f.Asks t.thread := .inl (by rw [Event.actor?, hop]; rfl)
      have hsource : f.op.source? = some (.thread t.thread) := by rw [hop]; rfl
      have htarget : f.op.target? = some (.lock l) := by rw [hop]; rfl
      exact inPast_of_target hn hsource htarget (.inr (h.happensBefore hn hasks))
    · rw [Op.rehold, if_neg fun hc => hl hc.1]
      exact h.stays hn (by simpa [hop, Op.target?] using hl)
  | forgetLock l =>
    rw [hop] at hr
    exact h.stays hn (by simpa [hop, Op.target?] using show l ≠ lock from hr)
  | start | fork | join | exit | access | init | forget =>
    exact h.stays hn (by simp [hop, Op.target?])

theorem at_of_succeeded (hs : ∀ e ∈ H, e.succeeded = true) (hn : H[n]? = some e) : H.At n e :=
  ⟨hn, Event.effective_of_succeeded (hs e (List.mem_of_getElem? hn))⟩

theorem respects_of_guards (hg : Guards lock x (H.map (·.op))) (hn : H[n]? = some e) :
    e.op.Respects lock x (holder? lock ((H.take n).map (·.op))) := by
  rw [List.map_take]
  exact hg.respects (by rw [List.getElem?_map, hn]; rfl)

section Guards

variable (hs : ∀ e ∈ H, e.succeeded = true) (hg : Guards lock x (H.map (·.op)))
include hs hg

/-- An access to the location is in the past of whoever holds the lock from then on. -/
theorem inPast_holder {t : Handle} {a : Access} (hi : H[i]? = some e) (hop : e.op = .access t a)
    (hx : a.address = x) (hin : i < n) (hn : n ≤ H.length) :
    H.InPast n i (.ofHolder lock (holder? lock ((H.take n).map (·.op)))) := by
  -- Induction on the operations after the access.
  induction n, hin using Nat.le_induction with
  | base =>
    have hr := respects_of_guards hg hi
    rw [hop] at hr
    have hholder : holder? lock ((H.take (i + 1)).map (·.op)) = some t.thread := by
      rw [List.take_add_one, hi, Option.toList_some, List.map_append, List.map_singleton,
        holder?_concat, hop]
      exact hr hx
    rw [hholder]
    exact ⟨i, e, Nat.lt_succ_self i, .inl rfl, at_of_succeeded hs hi,
      .inl (by rw [Event.actor?, hop]; rfl)⟩
  | succ n _ ih =>
    have hf : H[n]? = some H[n] := List.getElem?_eq_getElem hn
    rw [List.take_add_one, hf, Option.toList_some, List.map_append, List.map_singleton,
      holder?_concat]
    exact (ih (Nat.le_of_succ_le hn)).rehold (at_of_succeeded hs hf) (respects_of_guards hg hf)

/-- Accesses to a guarded location are ordered. -/
theorem happensBefore_of_guards {v w : Visit} (hw : H.Made x w) (hv : H.Made x v)
    (hwv : w.position < v.position) : H.HappensBefore w.position v.position := by
  obtain ⟨e, t, he, hop, -⟩ := hw
  obtain ⟨f, u, hf, hop', -⟩ := hv
  have hpast := inPast_holder hs hg he.1 hop rfl hwv (List.getElem?_eq_some_iff.mp hf.1).1.le
  have hr := respects_of_guards hg hf.1
  rw [hop'] at hr
  rw [hr rfl] at hpast
  exact hpast.happensBefore hf (.inl (by rw [Event.actor?, hop']; rfl))

end Guards

end Chronicle

namespace Detector

variable {rule : Rule} {K : Nat} {d : Detector rule K} {config : Config} {tag : Nat}
  {lock x : Address} {ops : List (Op Handle)}

/-- No race is found on a location that a lock guards. -/
theorem raceCount_eq_zero_of_guards (h : create rule K config tag = .ok d)
    (hs : ∀ e ∈ d.chronicle ops, e.succeeded = true) (hg : Guards lock x ops) :
    (d.run ops).raceCount x = 0 := by
  by_contra hne
  rw [← after_length] at hne
  obtain ⟨w, hw, v, hv, hconflict, hwv, hvw⟩ :=
    racy_of_raceCount_pos h ops (Nat.pos_of_ne_zero hne)
  have hg' : Guards lock x ((d.chronicle ops).map (·.op)) := by rwa [map_op_chronicle]
  have hordered {w v : Visit} (hw : w ∈ (d.chronicle ops).visits x ops.length)
      (hv : v ∈ (d.chronicle ops).visits x ops.length) (hlt : w.position < v.position) :=
    Chronicle.happensBefore_of_guards hs hg' (Chronicle.made_of_mem hw) (Chronicle.made_of_mem hv)
      hlt
  rcases Nat.lt_trichotomy w.position v.position with hlt | heq | hgt
  · exact hwv (hordered hw hv hlt)
  · -- One operation is made by one thread.
    obtain ⟨e, he, hact⟩ := (Chronicle.made_of_mem hw).exists_at
    obtain ⟨f, hf, hact'⟩ := (Chronicle.made_of_mem hv).exists_at
    rw [← heq] at hf
    obtain rfl := he.unique hf
    exact hconflict.1 (Option.some.inj (hact.symm.trans hact'))
  · exact hvw (hordered hv hw hgt)

end Detector

/-! ### No update is lost -/

namespace Session

variable {rule : Rule} {K : Nat} {s : Session K} {d : Detector rule K}
  {acts : List (Act Handle K)} {lock x : Address} {m n t : Nat}

/-- Whether each store to a cell is one half of an increment: the thread has loaded a value
before, and it stores one more. In between it does not release the lock, and it makes no
other store to the cell. -/
def Increments (s : Session K) (acts : List (Act Handle K)) (lock x : Address) : Prop :=
  ∀ n i h value, acts[n]? = some (.store i h x value) →
    ∃ m j g v, m < n ∧ acts[m]? = some (.load j g x) ∧ g.thread = h.thread ∧
      s.outcomeAt? acts m = some (.ok (.number v)) ∧ value = v + 1 ∧
      ∀ k a, m < k → k < n → acts[k]? = some a → ∀ w, w.thread = h.thread →
        a.op? ≠ some (.release lock w) ∧ ∀ l u, a ≠ .store l w x u

theorem respects_of_op? {a : Act Handle K} {op : Op Handle} (hg : Guards lock x (Act.ops acts))
    (hn : acts[n]? = some a) (hop : a.op? = some op) :
    op.Respects lock x (holder? lock (Act.ops (acts.take n))) := by
  have hops : Act.ops (acts.take (n + 1)) = Act.ops (acts.take n) ++ [op] := by
    rw [Act.ops_take_succ hn, hop, Option.toList_some]
  rw [← List.take_append_drop (n + 1) acts, Act.ops_append, hops] at hg
  exact hg.of_append.last

/-- A thread that does not release the lock goes on to hold it. -/
theorem holder?_stays (hg : Guards lock x (Act.ops acts)) (hmn : m ≤ n)
    (hm : holder? lock (Act.ops (acts.take m)) = some t)
    (hkeep : ∀ k a, m ≤ k → k < n → acts[k]? = some a → ∀ w, w.thread = t →
      a.op? ≠ some (.release lock w)) :
    holder? lock (Act.ops (acts.take n)) = some t := by
  induction n, hmn using Nat.le_induction with
  | base => exact hm
  | succ n hmn ih =>
    have hold := ih fun k a hk hkn => hkeep k a hk (Nat.lt_succ_of_lt hkn)
    cases hn : acts[n]? with
    | none => rwa [List.take_add_one, hn, Option.toList_none, List.append_nil]
    | some a =>
      rw [Act.ops_take_succ hn]
      cases hop : a.op? with
      | none => simpa using hold
      | some op =>
        have hr := respects_of_op? hg hn hop
        rw [hold] at hr
        rw [Option.toList_some, holder?_concat, hold]
        refine hr.rehold_eq fun w hw heq => ?_
        exact hkeep n a hmn (Nat.lt_succ_self n) hn w hw (hop.trans (congrArg some heq))

/-- The value that an increment has loaded is still there when it stores. -/
theorem Increments.cell_eq (hi : s.Increments acts lock x) (h : s.Succeeds acts)
    (hw : s.Watches d) (hplain : ∀ a ∈ acts, a.meddles = false)
    (hg : Guards lock x (Act.ops acts)) {i : Nat} {g : Handle} {value : Int}
    (hn : acts[n]? = some (.store i g x value)) :
    ∃ v, (s.after acts n).cells[x]? = some v ∧ value = v + 1 := by
  obtain ⟨m, j, u, v, hmn, hm, hu, hv, hvalue, hkeep⟩ := hi n i g value hn
  refine ⟨v, ?_, hvalue⟩
  rw [← h.cell_of_load hw hplain hm hv]
  have hholder : holder? lock (Act.ops (acts.take m)) = some g.thread :=
    (respects_of_op? hg hm rfl rfl).trans (by rw [hu])
  -- Nobody else holds the lock in between, and the thread itself does not store.
  refine h.cell_stays hw hplain hmn.le fun k a hmk hkn hk => ?_
  by_contra hstored
  obtain ⟨other, hother⟩ := Option.ne_none_iff_exists'.mp hstored
  obtain ⟨l, w, rfl⟩ := Act.stored?_eq_some.mp hother
  have hmk : m < k := by
    refine lt_of_le_of_ne hmk ?_
    rintro rfl
    simp [hm] at hk
  have hstays := holder?_stays hg hmk.le hholder fun k' a' hmk' hk' ha' w' hw' => by
    rcases Nat.eq_or_lt_of_le hmk' with rfl | hlt
    · rw [hm, Option.some.injEq] at ha'
      subst ha'
      simp [Act.op?]
    · exact (hkeep k' a' hlt (hk'.trans hkn) ha' w' hw').1
  have hw' := (respects_of_op? hg hk rfl rfl).symm.trans hstays
  exact (hkeep k _ hmk hkn hk w (Option.some.inj hw')).2 l other rfl

/-- Locations that a lock guards do not race and lose no update. In a run of one detector
without errors, no race is ever counted on a location that is accessed only by the holder
of a lock, which is acquired only while nobody holds it, released only by its holder and
never forgotten. And if each store to it is an increment, its value is at any time its
first one and the number of stores so far. -/
theorem guarded_raceCount_and_cell {config : Config} {cells : List (Address × Int)}
    (hs : create K [(rule, config)] cells = .ok s) (hplain : ∀ a ∈ acts, a.meddles = false)
    (h : s.Succeeds acts) (hg : Guards lock x (Act.ops acts)) :
    (∀ n, ∃ d : Detector rule K, (s.after acts n).Watches d ∧ d.raceCount x = 0) ∧
      ∀ initial, s.cells[x]? = some initial → s.Increments acts lock x → ∀ n,
        (s.after acts n).cells[x]? =
          some (initial + (acts.take n).countP fun a => (a.stored? x).isSome) := by
  obtain ⟨d, hd, hw, -⟩ := create_eq_ok hs
  refine ⟨fun n => ⟨_, h.watches_after hw hplain n, ?_⟩, fun initial hinitial hi n => ?_⟩
  · have hgn : Guards lock x (Act.ops (acts.take n)) := by
      rw [← List.take_append_drop n acts, Act.ops_append] at hg
      exact hg.of_append
    exact Detector.raceCount_eq_zero_of_guards hd (h.succeeded_of_mem hw hplain n) hgn
  · induction n with
    | zero => simpa using hinitial
    | succ n ih =>
      cases hn : acts[n]? with
      | none => rw [after_succ_of_none s hn, ih, List.take_add_one, hn, Option.toList_none,
          List.append_nil]
      | some a =>
        rw [h.cell_after_succ hw hplain hn, List.take_add_one, hn, Option.toList_some,
          List.countP_append, List.countP_singleton]
        cases hstored : a.stored? x with
        | none => simpa [hstored] using ih
        | some value =>
          obtain ⟨i, g, rfl⟩ := Act.stored?_eq_some.mp hstored
          obtain ⟨v, hv, rfl⟩ := hi.cell_eq h hw hplain hg hn
          rw [ih, Option.some.injEq] at hv
          subst hv
          simp [add_assoc]

/-- One detector for two threads, and one cell. -/
def counting (rule : Rule) : Session 2 :=
  ⟨[⟨rule, ⟨.default, .empty 0, .empty, .empty, 0⟩⟩], .ofList [((7, 0) : Address × Int)], ∅⟩

theorem create_counting (rule : Rule) :
    create 2 [(rule, .default)] [(7, 0)] = .ok (counting rule) := rfl

/-- Two threads take turns in adding one to the cell, under a lock. -/
def turns : List (Act Handle 2) :=
  [.call 0 .start none, .call 0 .start none,
    .call 0 (.acquire 9 ⟨0, 1⟩) none, .load 0 ⟨0, 1⟩ 7, .store 0 ⟨0, 1⟩ 7 1,
    .call 0 (.release 9 ⟨0, 1⟩) none,
    .call 0 (.acquire 9 ⟨0, 2⟩) none, .load 0 ⟨0, 2⟩ 7, .store 0 ⟨0, 2⟩ 7 2,
    .call 0 (.release 9 ⟨0, 2⟩) none]

theorem increments_turns : (counting .precise).Increments turns 9 7 := by
  intro n i h value hn
  have hlt : n < 10 := (List.getElem?_eq_some_iff.mp hn).1
  obtain ⟨rfl, rfl, rfl⟩ | ⟨rfl, rfl, rfl⟩ : (n = 4 ∧ h = ⟨0, 1⟩ ∧ value = 1) ∨
      (n = 8 ∧ h = ⟨0, 2⟩ ∧ value = 2) := by
    interval_cases n <;> simp [turns] at hn
    · exact .inl ⟨rfl, hn.2.1.symm, hn.2.2.symm⟩
    · exact .inr ⟨rfl, hn.2.1.symm, hn.2.2.symm⟩
  · exact ⟨3, 0, ⟨0, 1⟩, 0, by decide, rfl, rfl, by decide, rfl, fun k a hk hk' => by omega⟩
  · exact ⟨7, 0, ⟨0, 2⟩, 1, by decide, rfl, rfl, by decide, rfl, fun k a hk hk' => by omega⟩

theorem turns_lose_nothing :
    (∃ d : Detector .precise 2, ((counting .precise).after turns 10).Watches d ∧
      d.raceCount 7 = 0) ∧ ((counting .precise).after turns 10).cells[7]? = some 2 := by
  have hguards : Guards 9 7 (Act.ops turns) := by decide
  obtain ⟨hraces, hcell⟩ :=
    guarded_raceCount_and_cell (create_counting .precise) (by decide) (by decide) hguards
  refine ⟨hraces 10, ?_⟩
  rw [hcell 0 (by decide) increments_turns 10]
  rfl

end Session

end RaceWatch
