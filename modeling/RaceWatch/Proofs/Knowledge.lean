import RaceWatch.Proofs.Chronicle
import RaceWatch.Proofs.Clock

/-!
How knowledge moves in a run. The clock of each thread and the published clock of each
lock are kept in one place each. An operation passes the knowledge of one place on to
another one, and after that at most one thread begins a new event.

Nothing but a thread itself ever knows more of the thread than the thread does, and as
long as no thread runs out of clock values nothing else knows as much.
-/

namespace RaceWatch

open VectorClock

/-- Where knowledge is kept. -/
inductive Place where
  | thread (id : Nat)
  | lock (address : Address)
deriving DecidableEq

/-- What is known at each place. -/
abbrev Knowledge (K : Nat) : Type := Place → VectorClock K

/-- The thread that begins a new event at the end of an operation that succeeds. A
thread that comes to be begins its first. -/
def Event.ticker? (rule : Rule) (e : Event) : Option Nat :=
  match e.op, e.result with
  | .start, .ok (.handle h) => some h.thread
  | .fork p _, .ok _ => some p.thread
  | .join _ c, .ok _ => some c.thread
  | .release _ t, .ok _ => some t.thread
  | .access t _, .ok _ => match rule with
    | .epoch => none
    | .precise => some t.thread
  | _, _ => none

namespace Knowledge

variable {K : Nat}

/-- A place comes to know all that another one knows. -/
def learn (k : Knowledge K) (source target : Place) : Knowledge K :=
  Function.update k target ((k target).merge (k source))

/-- The knowledge of a place is replaced. -/
def replace (k : Knowledge K) (target : Place) (clock : VectorClock K) : Knowledge K :=
  Function.update k target clock

/-- A thread begins a new event. -/
def tick (k : Knowledge K) (t : Nat) : Knowledge K :=
  k.replace (.thread t) ((k (.thread t)).advance t)

/-- What an operation passes on. -/
def pass (k : Knowledge K) : Op Handle → Knowledge K
  | .fork p c => k.learn (.thread p.thread) (.thread c.thread)
  | .join p c => k.learn (.thread c.thread) (.thread p.thread)
  | .acquire lock t => k.learn (.lock lock) (.thread t.thread)
  | .release lock t => k.replace (.lock lock) (k (.thread t.thread))
  | .forgetLock lock => k.replace (.lock lock) .zero
  | .start | .exit _ | .access .. | .init _ | .forget _ => k

/-- A thread begins a new event, if there is one to do so. -/
def tick? (k : Knowledge K) : Option Nat → Knowledge K
  | none => k
  | some t => k.tick t

/-- What is known after an operation. -/
def follow (rule : Rule) (k : Knowledge K) (e : Event) : Knowledge K :=
  if e.effective then (k.pass e.op).tick? (e.ticker? rule) else k

theorem follow_of_effective {rule : Rule} {k : Knowledge K} {e : Event}
    (h : e.effective = true) : k.follow rule e = (k.pass e.op).tick? (e.ticker? rule) :=
  if_pos h

theorem follow_of_not_effective {rule : Rule} {k : Knowledge K} {e : Event}
    (h : e.effective = false) : k.follow rule e = k := by
  simp [follow, h]

/-! ### One place after another -/

@[simp] theorem learn_target (k : Knowledge K) (source target : Place) :
    k.learn source target target = (k target).merge (k source) := by
  simp [learn]

theorem learn_of_ne (k : Knowledge K) {source target q : Place} (h : q ≠ target) :
    k.learn source target q = k q := by
  simp [learn, h]

@[simp] theorem replace_target (k : Knowledge K) (target : Place) (clock : VectorClock K) :
    k.replace target clock target = clock := by
  simp [replace]

theorem replace_of_ne (k : Knowledge K) {target q : Place} (clock : VectorClock K)
    (h : q ≠ target) : k.replace target clock q = k q := by
  simp [replace, h]

theorem le_learn (k : Knowledge K) (source target q : Place) : k q ≤ k.learn source target q := by
  by_cases h : q = target
  · subst h
    rw [learn_target]
    exact le_merge_left _ _
  · rw [learn_of_ne k h]

theorem le_tick (k : Knowledge K) (t : Nat) (q : Place) : k q ≤ k.tick t q := by
  by_cases h : q = .thread t
  · subst h
    rw [tick, replace_target]
    exact le_advance _ _
  · rw [tick, replace_of_ne k _ h]

theorem le_tick? (k : Knowledge K) (t? : Option Nat) (q : Place) : k q ≤ k.tick? t? q := by
  cases t? with
  | none => exact le_rfl
  | some t => exact k.le_tick t q

@[simp] theorem tick?_lock (k : Knowledge K) (t? : Option Nat) (lock : Address) :
    k.tick? t? (.lock lock) = k (.lock lock) := by
  cases t? with
  | none => rfl
  | some t => simp [tick?, tick, replace]

/-- A new event changes what is known of the thread at the thread itself and nothing
else. -/
theorem time_tick?_of_ne (k : Knowledge K) (t? : Option Nat) {q : Place} {u : Nat}
    (h : q ≠ .thread u) : (k.tick? t? q).time u = (k q).time u := by
  cases t? with
  | none => rfl
  | some t =>
    simp only [tick?, tick]
    by_cases hq : q = .thread t
    · subst hq
      rw [replace_target, time_advance_of_ne]
      rintro rfl
      exact h rfl
    · rw [replace_of_ne k _ hq]

/-! ### What an operation passes on, by its source and its target -/

end Knowledge

namespace Op

/-- The place whose knowledge an operation passes on. -/
def source? : Op Handle → Option Place
  | .fork p _ => some (.thread p.thread)
  | .join _ c => some (.thread c.thread)
  | .acquire lock _ => some (.lock lock)
  | .release _ t => some (.thread t.thread)
  | .start | .exit _ | .forgetLock _ | .access .. | .init _ | .forget _ => none

/-- The place whose knowledge an operation adds to or replaces. -/
def target? : Op Handle → Option Place
  | .fork _ c => some (.thread c.thread)
  | .join p _ => some (.thread p.thread)
  | .acquire _ t => some (.thread t.thread)
  | .release lock _ | .forgetLock lock => some (.lock lock)
  | .start | .exit _ | .access .. | .init _ | .forget _ => none

theorem source?_eq_lock {op : Op Handle} {lock : Address} :
    op.source? = some (.lock lock) ↔ ∃ t, op = .acquire lock t := by
  cases op <;> simp [source?]

theorem replaces_of_target? {op : Op Handle} {lock : Address}
    (h : op.target? = some (.lock lock)) : op.replaces lock = true := by
  cases op <;> simp_all [target?, replaces]

theorem target?_of_replaces {op : Op Handle} {lock : Address} (h : op.replaces lock = true) :
    op.target? = some (.lock lock) := by
  cases op <;> simp_all [target?, replaces]

end Op

namespace Event

theorem asks_of_source? {e : Event} {t : Nat} (h : e.op.source? = some (.thread t)) :
    e.Asks t := by
  cases hop : e.op <;> simp_all [Op.source?, Asks, actor?, Op.actor?]

theorem tells_of_target? {e : Event} {t : Nat} (h : e.op.target? = some (.thread t)) :
    e.Tells t := by
  cases hop : e.op <;> simp_all [Op.target?, Tells, actor?, Op.actor?]

/-- A thread that passes its knowledge on begins a new event after that. -/
theorem ticker?_of_source? {rule : Rule} {e : Event} {t : Nat} (hs : e.succeeded = true)
    (h : e.op.source? = some (.thread t)) : e.ticker? rule = some t := by
  cases hr : e.result with
  | error => simp [succeeded, hr] at hs
  | ok v => cases hop : e.op <;> simp_all [Op.source?, ticker?]

end Event

namespace Knowledge

variable {K : Nat}

theorem pass_of_ne_target (k : Knowledge K) {op : Op Handle} {q : Place}
    (h : op.target? ≠ some q) : k.pass op q = k q := by
  cases op with
  | fork | join | acquire => exact learn_of_ne k fun hq => h (hq ▸ rfl)
  | release | forgetLock => exact replace_of_ne k _ fun hq => h (hq ▸ rfl)
  | start | exit | access | init | forget => rfl

/-- What is known at a place after an operation was known there before or comes from
the source of the operation. -/
theorem time_pass_le (k : Knowledge K) (op : Op Handle) (q : Place) (t : Nat) :
    (k.pass op q).time t ≤ (k q).time t ∨ ∃ source, op.source? = some source ∧
      op.target? = some q ∧ (k.pass op q).time t ≤ (k source).time t := by
  by_cases hq : op.target? = some q
  · have hlearn (source : Place) (hs : op.source? = some source)
        (hp : k.pass op q = (k q).merge (k source)) :
        (k.pass op q).time t ≤ (k q).time t ∨ ∃ source, op.source? = some source ∧
          op.target? = some q ∧ (k.pass op q).time t ≤ (k source).time t := by
      rw [hp, time_merge]
      rcases Nat.le_total ((k source).time t) ((k q).time t) with h | h
      · exact .inl (Nat.max_le.mpr ⟨Nat.le_refl _, h⟩)
      · exact .inr ⟨source, hs, hq, Nat.max_le.mpr ⟨h, Nat.le_refl _⟩⟩
    cases op with
    | fork | join | acquire =>
      obtain rfl := Option.some.inj hq
      exact hlearn _ rfl (k.learn_target _ _)
    | release lock t =>
      obtain rfl := Option.some.inj hq
      refine .inr ⟨_, rfl, rfl, ?_⟩
      rw [pass, replace_target]
    | forgetLock lock =>
      obtain rfl := Option.some.inj hq
      left
      rw [pass, replace_target, time_zero]
      exact Nat.zero_le _
    | start | exit | access | init | forget => simp [Op.target?] at hq
  · rw [pass_of_ne_target k hq]
    exact .inl (Nat.le_refl _)

/-- The target of an operation comes to know all that the source knows. -/
theorem source_le_pass (k : Knowledge K) {op : Op Handle} {source target : Place}
    (hs : op.source? = some source) (ht : op.target? = some target) :
    k source ≤ k.pass op target := by
  cases op with
  | fork | join | acquire =>
    obtain rfl := Option.some.inj hs
    obtain rfl := Option.some.inj ht
    rw [pass, learn_target]
    exact le_merge_right _ _
  | release lock t =>
    obtain rfl := Option.some.inj hs
    obtain rfl := Option.some.inj ht
    rw [pass, replace_target]
  | start | exit | forgetLock | access | init | forget => simp [Op.source?] at hs

/-- What a thread knows never gets less. -/
theorem thread_le_pass (k : Knowledge K) (op : Op Handle) (t : Nat) :
    k (.thread t) ≤ k.pass op (.thread t) := by
  cases op with
  | fork | join | acquire => exact k.le_learn _ _ _
  | release | forgetLock | start | exit | access | init | forget =>
    rw [pass_of_ne_target k (by simp [Op.target?])]

theorem thread_le_follow (rule : Rule) (k : Knowledge K) (e : Event) (t : Nat) :
    k (.thread t) ≤ k.follow rule e (.thread t) := by
  cases h : e.effective with
  | false => rw [follow_of_not_effective h]
  | true =>
    rw [follow_of_effective h]
    exact (k.thread_le_pass e.op t).trans (le_tick? _ _ _)

/-- Only an operation that replaces what a lock had published changes it. -/
theorem lock_follow (rule : Rule) (k : Knowledge K) {e : Event} {lock : Address}
    (h : e.effective = true → e.op.replaces lock = false) :
    k.follow rule e (.lock lock) = k (.lock lock) := by
  cases he : e.effective with
  | false => rw [follow_of_not_effective he]
  | true =>
    rw [follow_of_effective he, tick?_lock]
    refine pass_of_ne_target k fun ht => ?_
    rw [Op.replaces_of_target? ht] at h
    exact Bool.noConfusion (h he)

/-! ### What a thread knows of itself -/

/-- The event that a thread is in, 0 for a thread that has not come to be. -/
def own (k : Knowledge K) (t : Nat) : Nat := (k (.thread t)).time t

/-- Nothing knows more of a thread than the thread itself. -/
def Owned (k : Knowledge K) : Prop := ∀ q t, (k q).time t ≤ k.own t

/-- Only the thread itself knows of the event that it is in. -/
def Ahead (k : Knowledge K) : Prop :=
  ∀ q t, q ≠ .thread t → 0 < k.own t → (k q).time t < k.own t

/-- What an operation that takes effect can count on: all threads that it names have
come to be, the two sides of a fork or of a join are different, and a thread that begins
a new event has room for it. -/
structure Admits (rule : Rule) (k : Knowledge K) (e : Event) : Prop where
  known : ∀ h ∈ e.op.threads, 0 < k.own h.thread
  distinct : ∀ p c, e.op = .fork p c ∨ e.op = .join p c → p.thread ≠ c.thread
  fits : ∀ t, e.ticker? rule = some t → Fits K t

theorem Owned.pass {k : Knowledge K} (h : k.Owned) (op : Op Handle) : (k.pass op).Owned := by
  intro q t
  have hown : k.own t ≤ (k.pass op).own t := time_mono (k.thread_le_pass op t) t
  rcases k.time_pass_le op q t with hq | ⟨source, -, -, hq⟩
  · exact hq.trans ((h q t).trans hown)
  · exact hq.trans ((h source t).trans hown)

theorem Owned.tick? {k : Knowledge K} (h : k.Owned) (t? : Option Nat) : (k.tick? t?).Owned := by
  intro q t
  by_cases hq : q = .thread t
  · subst hq
    exact Nat.le_refl _
  · rw [time_tick?_of_ne k t? hq]
    exact (h q t).trans (time_mono (k.le_tick? t? _) t)

theorem Owned.follow {k : Knowledge K} (h : k.Owned) (rule : Rule) (e : Event) :
    (k.follow rule e).Owned := by
  cases he : e.effective with
  | false => rwa [follow_of_not_effective he]
  | true =>
    rw [follow_of_effective he]
    exact (h.pass e.op).tick? _

theorem own_le_follow (rule : Rule) (k : Knowledge K) (e : Event) (t : Nat) :
    k.own t ≤ (k.follow rule e).own t :=
  time_mono (k.thread_le_follow rule e t) t

/-- A thread whose knowledge is passed on is in a new event afterwards, so that it is
ahead of the target again. -/
theorem Ahead.follow {rule : Rule} {k : Knowledge K} {e : Event} (h : k.Ahead) (hk : k.Owned)
    (hs : e.succeeded = true) (ha : k.Admits rule e) : (k.follow rule e).Ahead := by
  intro q t hq hpos
  have hown := own_le_follow rule k e t
  rw [follow_of_effective (Event.effective_of_succeeded hs)] at hpos hown ⊢
  rw [time_tick?_of_ne _ _ hq]
  -- Nothing is known of a thread that comes to be just now.
  by_cases h0 : k.own t = 0
  · refine lt_of_le_of_lt ?_ hpos
    rcases k.time_pass_le e.op q t with hle | ⟨source, -, -, hle⟩
    · exact (hle.trans (hk q t)).trans h0.le
    · exact (hle.trans (hk source t)).trans h0.le
  have hlt := fun q' hq' => lt_of_lt_of_le (h q' t hq' (Nat.pos_of_ne_zero h0)) hown
  rcases k.time_pass_le e.op q t with hle | ⟨source, hsource, -, hle⟩
  · exact lt_of_le_of_lt hle (hlt q hq)
  · by_cases hst : source = .thread t
    -- The target learns the event that the thread has been in, and the thread leaves it.
    · subst hst
      have htick : e.ticker? rule = some t := Event.ticker?_of_source? hs hsource
      refine lt_of_le_of_lt hle ?_
      simp only [own, htick, Knowledge.tick?, Knowledge.tick, replace_target]
      rw [time_advance_self (ha.fits t htick)]
      exact Nat.lt_succ_of_le (time_mono (k.thread_le_pass e.op t) t)
    · exact lt_of_le_of_lt hle (hlt source hst)

end Knowledge

end RaceWatch
