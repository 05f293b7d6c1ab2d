import RaceWatch.Proofs.Knowledge

/-!
Clocks characterise the order of a run. Every operation that takes part in the order has
a stamp: the clock of its thread at that moment. What happens later has a larger stamp,
and this needs no assumption. Conversely, as long as nothing overflows, whoever knows of
the event in which an operation was made has the operation in its past, and then it knows
all that was known to the operation. So the whole stamp can be compared or its own
coordinate alone.
-/

namespace RaceWatch

open VectorClock

/-- The thread that begins a new event at the start of an operation. -/
def Event.opener? (rule : Rule) (e : Event) : Option Nat :=
  match e.op with
  | .access .. => e.ticker? rule
  | _ => none

theorem Event.opener?_eq (rule : Rule) (e : Event) :
    e.opener? rule = none ∨ e.opener? rule = e.ticker? rule := by
  cases hop : e.op <;> simp [opener?, hop]

/-- The acting thread is among those that the operation names. -/
theorem Event.exists_mem_threads {e : Event} {t : Nat} (h : e.actor? = some t) :
    ∃ u ∈ e.op.threads, u.thread = t := by
  cases hop : e.op <;> simp_all [actor?, Op.actor?, Op.threads]

namespace Knowledge

variable {K : Nat}

/-- The clock of the acting thread in an operation: after what it learns from the
operation, and before the new event that it begins because it handed its knowledge on. -/
def stamp (rule : Rule) (k : Knowledge K) (e : Event) (t : Nat) : VectorClock K :=
  (k.pass e.op).tick? (e.opener? rule) (.thread t)

variable {rule : Rule} {k : Knowledge K} {e : Event} {t c : Nat} {lock : Address}

theorem pass_le_stamp : k.pass e.op (.thread t) ≤ k.stamp rule e t :=
  le_tick? _ _ _

theorem thread_le_stamp : k (.thread t) ≤ k.stamp rule e t :=
  (k.thread_le_pass e.op t).trans pass_le_stamp

theorem stamp_le_follow (he : e.effective = true) :
    k.stamp rule e t ≤ k.follow rule e (.thread t) := by
  rw [follow_of_effective he, stamp]
  rcases e.opener?_eq rule with h | h
  · rw [h]
    exact le_tick? _ _ _
  · rw [h]

/-- An operation that hands knowledge on does not change what its thread knows. -/
theorem stamp_of_source (hs : e.op.source? = some (.thread t))
    (ht : e.op.target? ≠ some (.thread t)) : k.stamp rule e t = k (.thread t) := by
  have ho : e.opener? rule = none := by
    cases hop : e.op <;> simp_all [Op.source?, Event.opener?]
  rw [stamp, ho]
  exact pass_of_ne_target k ht

/-- A thread that an operation tells of what it knows knows it afterwards. -/
theorem stamp_le_of_tells (he : e.effective = true) (ha : k.Admits rule e)
    (hact : e.actor? = some t) (h : e.Tells c) :
    k.stamp rule e t ≤ k.follow rule e (.thread c) := by
  rcases h with h | ⟨p, c, hop, rfl⟩
  · obtain rfl := Option.some.inj (hact.symm.trans h)
    exact stamp_le_follow he
  · obtain rfl : p.thread = t := by simpa [Event.actor?, hop, Op.actor?] using hact
    have hs : e.op.source? = some (.thread p.thread) := by rw [hop]; rfl
    have ht : e.op.target? = some (.thread c.thread) := by rw [hop]; rfl
    have hne : e.op.target? ≠ some (.thread p.thread) := by
      rw [ht]
      simpa using (ha.distinct p c (.inl hop)).symm
    rw [stamp_of_source hs hne, follow_of_effective he]
    exact (k.source_le_pass hs ht).trans (le_tick? _ _ _)

/-- What a thread knows that an operation asks is known in the operation. -/
theorem thread_le_stamp_of_asks (hact : e.actor? = some t) (h : e.Asks c) :
    k (.thread c) ≤ k.stamp rule e t := by
  rcases h with h | ⟨p, c, hop, rfl⟩
  · obtain rfl := Option.some.inj (hact.symm.trans h)
    exact thread_le_stamp
  · obtain rfl : p.thread = t := by simpa [Event.actor?, hop, Op.actor?] using hact
    refine (k.source_le_pass ?_ ?_).trans pass_le_stamp
    · rw [hop]; rfl
    · rw [hop]; rfl

theorem stamp_eq_lock_of_release {u : Handle} (he : e.effective = true)
    (hop : e.op = .release lock u) : k.stamp rule e u.thread = k.follow rule e (.lock lock) := by
  have hs : e.op.source? = some (.thread u.thread) := by rw [hop]; rfl
  rw [stamp_of_source hs (by simp [hop, Op.target?]), follow_of_effective he, tick?_lock, hop]
  exact (replace_target k _ _).symm

theorem lock_le_stamp_of_acquire {u : Handle} (hop : e.op = .acquire lock u) :
    k (.lock lock) ≤ k.stamp rule e u.thread := by
  refine (k.source_le_pass ?_ ?_).trans pass_le_stamp
  · rw [hop]; rfl
  · rw [hop]; rfl

/-- In an operation, a thread knows of another one what it knew before or what comes
from the source of the operation. -/
theorem time_stamp_le {u : Nat} (hu : u ≠ t) :
    (k.stamp rule e u).time t ≤ (k (.thread u)).time t ∨ ∃ source, e.op.source? = some source ∧
      (k.stamp rule e u).time t ≤ (k source).time t := by
  have hq : Place.thread u ≠ .thread t := by simpa using hu
  rw [stamp, time_tick?_of_ne _ _ hq]
  rcases k.time_pass_le e.op (.thread u) t with h | ⟨source, hs, -, h⟩
  · exact .inl h
  · exact .inr ⟨source, hs, h⟩

end Knowledge

/-! ### Knowledge along a run -/

namespace Chronicle

variable {K : Nat} {rule : Rule} {H : Chronicle} {i j n : Nat} {e f : Event} {t u : Nat}

/-- What is known after the first operations of a run. -/
def knownAt (rule : Rule) (K : Nat) (H : Chronicle) (n : Nat) : Knowledge K :=
  (H.take n).foldl (Knowledge.follow rule) fun _ => .zero

/-- Each operation that takes effect in the run can count on what it has to. -/
def Legal (rule : Rule) (K : Nat) (H : Chronicle) : Prop :=
  ∀ i e, H.At i e → (H.knownAt rule K i).Admits rule e

/-- The clock of the acting thread in the operation at a position. -/
def stamp (rule : Rule) (K : Nat) (H : Chronicle) (i : Nat) : VectorClock K :=
  match H[i]?.bind fun e => e.actor?.map fun t => (e, t) with
  | none => .zero
  | some (e, t) => (H.knownAt rule K i).stamp rule e t

theorem stamp_eq (h : H.At i e) (ht : e.actor? = some t) :
    H.stamp rule K i = (H.knownAt rule K i).stamp rule e t := by
  simp [stamp, h.1, ht]

theorem knownAt_succ (h : H[n]? = some e) :
    H.knownAt rule K (n + 1) = (H.knownAt rule K n).follow rule e := by
  simp [knownAt, List.take_add_one, h]

theorem knownAt_succ_of_none (h : H[n]? = none) :
    H.knownAt rule K (n + 1) = H.knownAt rule K n := by
  simp [knownAt, List.take_add_one, h]

theorem thread_knownAt_mono {m : Nat} (h : n ≤ m) (t : Nat) :
    H.knownAt rule K n (.thread t) ≤ H.knownAt rule K m (.thread t) := by
  induction m, h using Nat.le_induction with
  | base => exact le_rfl
  | succ m _ ih =>
    refine ih.trans ?_
    cases he : H[m]? with
    | none => rw [knownAt_succ_of_none he]
    | some e =>
      rw [knownAt_succ he]
      exact Knowledge.thread_le_follow rule _ e t

/-- What a lock has published stays as long as no operation replaces it. -/
theorem lock_knownAt_eq {lock : Address} {m : Nat} (h : n ≤ m)
    (hkeep : ∀ k g, n ≤ k → k < m → H.At k g → g.op.replaces lock = false) :
    H.knownAt rule K m (.lock lock) = H.knownAt rule K n (.lock lock) := by
  induction m, h using Nat.le_induction with
  | base => rfl
  | succ m hm ih =>
    rw [← ih fun k g hk hkm => hkeep k g hk (hkm.trans (Nat.lt_succ_self m))]
    cases he : H[m]? with
    | none => rw [knownAt_succ_of_none he]
    | some e =>
      rw [knownAt_succ he]
      exact Knowledge.lock_follow rule _ fun heff => hkeep m e hm (Nat.lt_succ_self m) ⟨he, heff⟩

theorem owned_knownAt (n : Nat) : (H.knownAt rule K n).Owned := by
  induction n with
  | zero =>
    intro q t
    simp [knownAt]
  | succ n ih =>
    cases he : H[n]? with
    | none => rwa [knownAt_succ_of_none he]
    | some e =>
      rw [knownAt_succ he]
      exact ih.follow rule e

theorem ahead_knownAt (hl : H.Legal rule K) (ho : H.NoOverflow) (n : Nat) :
    (H.knownAt rule K n).Ahead := by
  induction n with
  | zero =>
    intro q t _ hpos
    simp [knownAt, Knowledge.own] at hpos
  | succ n ih =>
    cases he : H[n]? with
    | none => rwa [knownAt_succ_of_none he]
    | some e =>
      rw [knownAt_succ he]
      cases heff : e.effective with
      | false => rwa [Knowledge.follow_of_not_effective heff]
      | true =>
        have hs := Event.succeeded_of_effective heff (ho e (List.mem_of_getElem? he))
        exact ih.follow (owned_knownAt n) hs (hl n e ⟨he, heff⟩)

/-! ### What happens later has a larger stamp -/

/-- What a thread was told in an operation it knows from then on. -/
theorem stamp_le_knownAt_thread (hl : H.Legal rule K) (hi : H.At i e) (he : e.Tells t)
    (h : i < n) : H.stamp rule K i ≤ H.knownAt rule K n (.thread t) := by
  obtain ⟨a, ha⟩ : ∃ a, e.actor? = some a := by
    rcases he with he | ⟨p, c, hop, -⟩
    · exact ⟨t, he⟩
    · exact ⟨p.thread, by simp [Event.actor?, hop, Op.actor?]⟩
  rw [stamp_eq hi ha]
  refine le_trans ?_ (thread_knownAt_mono h t)
  rw [knownAt_succ hi.1]
  exact Knowledge.stamp_le_of_tells hi.2 (hl i e hi) ha he

/-- What a release published is known to the lock until it is replaced. -/
theorem stamp_le_knownAt_lock {lock : Address} {u : Handle} (hi : H.At i e)
    (he : e.op = .release lock u) (h : i < n)
    (latest : ∀ k g, i < k → k < n → H.At k g → g.op.replaces lock = false) :
    H.stamp rule K i ≤ H.knownAt rule K n (.lock lock) := by
  rw [stamp_eq hi (t := u.thread) (by simp [Event.actor?, he, Op.actor?]),
    Knowledge.stamp_eq_lock_of_release hi.2 he, ← knownAt_succ hi.1,
    lock_knownAt_eq h fun k g hk => latest k g hk]

theorem stamp_le_of_link (hl : H.Legal rule K) (h : H.Link i j) :
    H.stamp rule K i ≤ H.stamp rule K j := by
  obtain ⟨hij, e, f, hi, hj, ⟨t, he, hf⟩ | ⟨lock, t, u, he, hf, latest⟩⟩ := h.cases
  · obtain ⟨a, ha⟩ : ∃ a, f.actor? = some a := by
      rcases hf with hf | ⟨p, c, hop, -⟩
      · exact ⟨t, hf⟩
      · exact ⟨p.thread, by simp [Event.actor?, hop, Op.actor?]⟩
    rw [stamp_eq hj ha]
    exact (stamp_le_knownAt_thread hl hi he hij).trans (Knowledge.thread_le_stamp_of_asks ha hf)
  · rw [stamp_eq hj (t := u.thread) (by simp [Event.actor?, hf, Op.actor?])]
    exact (stamp_le_knownAt_lock hi he hij latest).trans (Knowledge.lock_le_stamp_of_acquire hf)

/-- What happens later has a larger stamp, even after an overflow. -/
theorem HappensBefore.stamp_le (h : H.HappensBefore i j) (hl : H.Legal rule K) :
    H.stamp rule K i ≤ H.stamp rule K j := by
  induction h with
  | single h => exact stamp_le_of_link hl h
  | tail _ h ih => exact ih.trans (stamp_le_of_link hl h)

/-! ### Who knows of an operation has it in its past -/

/-- How an operation reaches a place before a moment: it tells a thread, or it is the
latest release of a lock. -/
def Reaches (H : Chronicle) (n j : Nat) (e : Event) : Place → Prop
  | .thread t => e.Tells t
  | .lock lock => (∃ t, e.op = .release lock t) ∧
      ∀ k g, j < k → k < n → H.At k g → g.op.replaces lock = false

/-- Whether an operation lies in the past of a place at a moment: it reaches the place
itself or happens before one that does. -/
def InPast (H : Chronicle) (n i : Nat) (q : Place) : Prop :=
  ∃ j e, j < n ∧ (i = j ∨ H.HappensBefore i j) ∧ H.At j e ∧ H.Reaches n j e q

/-- Whether the acting thread learns what is known at a place, or knew it before. -/
def Draws (e : Event) : Place → Prop
  | .thread t => e.Asks t
  | .lock lock => ∃ t, e.op = .acquire lock t

theorem draws_of_source {q : Place} (h : e.op.source? = some q) : Draws e q := by
  cases q with
  | thread t => exact Event.asks_of_source? h
  | lock lock => exact Op.source?_eq_lock.mp h

/-- An operation comes after all that lies in the past of a place it draws on. -/
theorem InPast.happensBefore {q : Place} (h : H.InPast n i q) (hn : H.At n f) (hf : Draws f q) :
    H.HappensBefore i n := by
  obtain ⟨j, e, hj, hij, hje, hr⟩ := h
  have hlink : H.Link j n := by
    cases q with
    | thread t => exact link_of_tells hj hje hn hr hf
    | lock lock =>
      obtain ⟨⟨t, he⟩, latest⟩ := hr
      obtain ⟨u, hf⟩ := hf
      exact .edge (.lock hj hje hn he hf latest)
  rcases hij with rfl | hij
  · exact .single hlink
  · exact .tail hij hlink

/-- What lies in the past of a place stays there, unless the place is a lock whose
clock is replaced. -/
theorem InPast.succ {q : Place} (h : H.InPast n i q)
    (hkeep : ∀ e, H.At n e → e.op.target? = some q → ∃ t, q = .thread t) :
    H.InPast (n + 1) i q := by
  obtain ⟨j, e, hj, hij, hje, hr⟩ := h
  refine ⟨j, e, hj.trans (Nat.lt_succ_self n), hij, hje, ?_⟩
  cases q with
  | thread t => exact hr
  | lock lock =>
    refine ⟨hr.1, fun k g hjk hk hg => ?_⟩
    rcases Nat.lt_succ_iff_lt_or_eq.mp hk with hk | rfl
    · exact hr.2 k g hjk hk hg
    · rw [← Bool.not_eq_true]
      intro hrep
      obtain ⟨t, ht⟩ := hkeep g hg (Op.target?_of_replaces hrep)
      exact Place.noConfusion ht

/-- An operation whose source has another one in its past brings that one to its
target. -/
theorem inPast_of_target {q source : Place} (hn : H.At n f) (hs : f.op.source? = some source)
    (ht : f.op.target? = some q) (h : i = n ∨ H.HappensBefore i n) : H.InPast (n + 1) i q := by
  refine ⟨n, f, Nat.lt_succ_self n, h, hn, ?_⟩
  cases q with
  | thread t => exact Event.tells_of_target? ht
  | lock lock =>
    refine ⟨?_, fun k g hnk hk => absurd hk (Nat.not_lt_of_le hnk)⟩
    cases hop : f.op <;> simp_all [Op.source?, Op.target?]

theorem stamp_time_pos (hl : H.Legal rule K) (hi : H.At i e) (ht : e.actor? = some t) :
    0 < (H.stamp rule K i).time t := by
  obtain ⟨h, hmem, rfl⟩ := Event.exists_mem_threads ht
  rw [stamp_eq hi ht]
  exact lt_of_lt_of_le ((hl i e hi).known h hmem) (time_mono Knowledge.thread_le_stamp _)

/-- What is known at the target of an operation was known there before, and the target
is a thread that has not forgotten it, or comes from the source. -/
theorem inPast_after_target {q : Place} {v : Nat} (hn : H.At n f) (ht : f.op.target? = some q)
    (hv : 0 < v) (h : v ≤ ((H.knownAt rule K n).pass f.op q).time t)
    (ih : ∀ q', v ≤ (H.knownAt rule K n q').time t → H.InPast n i q') :
    H.InPast (n + 1) i q := by
  have hsource {source : Place} (hs : f.op.source? = some source)
      (hle : v ≤ (H.knownAt rule K n source).time t) : H.InPast (n + 1) i q :=
    inPast_of_target hn hs ht (.inr ((ih source hle).happensBefore hn (draws_of_source hs)))
  cases q with
  | thread c =>
    rcases (H.knownAt rule K n).time_pass_le f.op (.thread c) t with hle | ⟨source, hs, -, hle⟩
    · exact (ih _ (h.trans hle)).succ fun _ _ _ => ⟨c, rfl⟩
    · exact hsource hs (h.trans hle)
  | lock lock =>
    cases hop : f.op with
    | release l u =>
      simp only [hop, Op.target?, Option.some.injEq, Place.lock.injEq] at ht
      subst ht
      rw [hop, Knowledge.pass, Knowledge.replace_target] at h
      exact hsource (by rw [hop]; rfl) h
    | forgetLock l =>
      simp only [hop, Op.target?, Option.some.injEq, Place.lock.injEq] at ht
      subst ht
      rw [hop, Knowledge.pass, Knowledge.replace_target, time_zero] at h
      omega
    | start | fork | join | exit | acquire | access | init | forget => simp [hop, Op.target?] at ht

/-- Whoever knows of the event in which an operation was made has the operation in its
past. -/
theorem inPast_of_time_le (hl : H.Legal rule K) (ho : H.NoOverflow) (hi : H.At i e)
    (ht : e.actor? = some t) {q : Place} (hn : i < n)
    (h : (H.stamp rule K i).time t ≤ (H.knownAt rule K n q).time t) :
    H.InPast n i q := by
  -- Induction on the operations after the one in question. It is for all places at once,
  -- since what a place knows may have come from any other.
  induction n, hn using Nat.le_induction generalizing q with
  | base =>
    by_cases hq : q = .thread t
    · exact ⟨i, e, Nat.lt_succ_self i, .inl rfl, hi, hq ▸ .inl ht⟩
    rw [knownAt_succ hi.1, Knowledge.follow_of_effective hi.2, Knowledge.time_tick?_of_ne _ _ hq]
      at h
    -- Before the operation, nobody but the thread itself knew of its event.
    have hlt (q' : Place) (hq' : q' ≠ .thread t) :
        (H.knownAt rule K i q').time t < (H.stamp rule K i).time t := by
      obtain ⟨u, hmem, rfl⟩ := Event.exists_mem_threads ht
      refine lt_of_lt_of_le (ahead_knownAt hl ho i q' _ hq' ((hl i e hi).known u hmem)) ?_
      rw [stamp_eq hi ht]
      exact time_mono Knowledge.thread_le_stamp _
    rcases (H.knownAt rule K i).time_pass_le e.op q t with hle | ⟨source, hs, htarget, hle⟩
    · exact absurd (h.trans hle) (Nat.not_le_of_lt (hlt q hq))
    · exact inPast_of_target hi hs htarget (.inl rfl)
  | succ n hn ih =>
    cases hf : H[n]? with
    | none =>
      rw [knownAt_succ_of_none hf] at h
      exact (ih h).succ fun f hnf => absurd hnf.1 (by simp [hf])
    | some f =>
      rw [knownAt_succ hf] at h
      cases heff : f.effective with
      | false =>
        rw [Knowledge.follow_of_not_effective heff] at h
        refine (ih h).succ fun g hg => ?_
        obtain rfl := Option.some.inj (hf.symm.trans hg.1)
        exact absurd hg.2 (by simp [heff])
      | true =>
        have hnf : H.At n f := ⟨hf, heff⟩
        by_cases hq : q = .thread t
        · exact ⟨i, e, by omega, .inl rfl, hi, hq ▸ .inl ht⟩
        rw [Knowledge.follow_of_effective heff, Knowledge.time_tick?_of_ne _ _ hq] at h
        by_cases htarget : f.op.target? = some q
        · exact inPast_after_target hnf htarget (stamp_time_pos hl hi ht) h fun q' => ih
        · rw [Knowledge.pass_of_ne_target _ htarget] at h
          refine (ih h).succ fun g hg htarget' => ?_
          obtain rfl := Option.some.inj (hf.symm.trans hg.1)
          exact absurd htarget' htarget

/-! ### The characterization -/

theorem InPast.stamp_le {q : Place} (h : H.InPast n i q) (hl : H.Legal rule K) :
    H.stamp rule K i ≤ H.knownAt rule K n q := by
  obtain ⟨j, e, hj, hij, hje, hr⟩ := h
  have hle : H.stamp rule K i ≤ H.stamp rule K j := by
    rcases hij with rfl | hij
    · exact le_rfl
    · exact hij.stamp_le hl
  refine hle.trans ?_
  cases q with
  | thread t => exact stamp_le_knownAt_thread hl hje hr hj
  | lock lock =>
    obtain ⟨⟨u, he⟩, latest⟩ := hr
    exact stamp_le_knownAt_lock hje he hj latest

/-- Who knows of the event in which an operation was made knows all that was known to
the operation. -/
theorem time_le_knownAt_iff (hl : H.Legal rule K) (ho : H.NoOverflow) (hi : H.At i e)
    (ht : e.actor? = some t) {q : Place} (hn : i < n) :
    (H.stamp rule K i).time t ≤ (H.knownAt rule K n q).time t ↔
      H.stamp rule K i ≤ H.knownAt rule K n q :=
  ⟨fun h => (inPast_of_time_le hl ho hi ht hn h).stamp_le hl, fun h => time_mono h t⟩

/-- An operation happens before a later one exactly if the later one knows of the event
in which it was made. -/
theorem happensBefore_iff_time_le (hl : H.Legal rule K) (ho : H.NoOverflow) (hi : H.At i e)
    (hj : H.At j f) (ht : e.actor? = some t) (hu : f.actor? = some u) (hij : i < j) :
    H.HappensBefore i j ↔ (H.stamp rule K i).time t ≤ (H.stamp rule K j).time t := by
  constructor
  · intro h
    exact time_mono (h.stamp_le hl) t
  · intro h
    by_cases htu : u = t
    · subst htu
      exact .single (.edge (.program hij hi hj ht hu))
    -- The later thread knew of the event before, or it has just learnt of it.
    rw [stamp_eq hj hu] at h
    rcases Knowledge.time_stamp_le htu with hle | ⟨source, hs, hle⟩
    · exact (inPast_of_time_le hl ho hi ht hij (h.trans hle)).happensBefore hj (.inl hu)
    · exact (inPast_of_time_le hl ho hi ht hij (h.trans hle)).happensBefore hj
        (draws_of_source hs)

/-- Once another thread has learnt of an operation, the thread that made it is in a later
event. -/
theorem HappensBefore.time_lt (h : H.HappensBefore i j) (hl : H.Legal rule K) (ho : H.NoOverflow)
    (hi : H.At i e) (hj : H.At j f) (ht : e.actor? = some t) (hu : f.actor? = some u)
    (hut : u ≠ t) (hn : j < n) : (H.stamp rule K i).time t < (H.knownAt rule K n).own t := by
  have hself := time_mono (stamp_le_knownAt_thread hl hi (.inl ht) (h.lt.trans hn)) t
  have hother := time_mono ((h.stamp_le hl).trans (stamp_le_knownAt_thread hl hj (.inl hu) hn)) t
  have hpos : 0 < (H.knownAt rule K n).own t := lt_of_lt_of_le (stamp_time_pos hl hi ht) hself
  exact lt_of_le_of_lt hother (ahead_knownAt hl ho n (.thread u) t (by simpa using hut) hpos)

theorem happensBefore_iff_stamp_le (hl : H.Legal rule K) (ho : H.NoOverflow) (hi : H.At i e)
    (hj : H.At j f) (ht : e.actor? = some t) (hu : f.actor? = some u) (hij : i < j) :
    H.HappensBefore i j ↔ H.stamp rule K i ≤ H.stamp rule K j :=
  ⟨fun h => h.stamp_le hl, fun h =>
    (happensBefore_iff_time_le hl ho hi hj ht hu hij).mpr (time_mono h t)⟩

end Chronicle

end RaceWatch
