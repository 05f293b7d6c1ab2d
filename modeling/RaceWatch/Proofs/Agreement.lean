import RaceWatch.Proofs.Admission
import RaceWatch.Proofs.Flagged

/-!
The two rules side by side. Told of the same operations, a precise detector and an epoch
detector let the same ones through: what they check has nothing to do with their clocks.
So their chronicles have the same outline, and with it the same order and the same visits.
A location that the precise rule flags is racy by this order, and the epoch rule flags
each racy location.
-/

namespace RaceWatch

/-- What a detector sees of a handle: whether it is its own, and the identity. -/
def Handle.seenBy (tag : Nat) (h : Handle) : Bool × Nat := (h.owner == tag, h.thread)

namespace Op

variable {ρ ρ' : Type}

/-- Refer to the threads in another way. -/
def map (f : ρ → ρ') : Op ρ → Op ρ'
  | .start => .start
  | .fork p c => .fork (f p) (f c)
  | .join p c => .join (f p) (f c)
  | .exit t => .exit (f t)
  | .acquire lock t => .acquire lock (f t)
  | .release lock t => .release lock (f t)
  | .forgetLock lock => .forgetLock lock
  | .access t a => .access (f t) a
  | .init address => .init address
  | .forget address => .forget address

theorem map_map {ρ'' : Type} (f : ρ → ρ') (g : ρ' → ρ'') (op : Op ρ) :
    (op.map f).map g = op.map (g ∘ f) := by
  cases op <;> rfl

theorem actor?_map (f : ρ → ρ') (op : Op ρ) : (op.map f).actor? = op.actor?.map f := by
  cases op <;> rfl

theorem replaces_map (f : ρ → ρ') (lock : Address) (op : Op ρ) :
    (op.map f).replaces lock = op.replaces lock := by
  cases op <;> rfl

variable {op : Op ρ} {f : ρ → ρ'} {t u : ρ'} {lock x : Address} {a : Access}

theorem map_eq_fork : op.map f = .fork t u ↔ ∃ p c, op = .fork p c ∧ f p = t ∧ f c = u := by
  cases op <;> simp [map]

theorem map_eq_join : op.map f = .join t u ↔ ∃ p c, op = .join p c ∧ f p = t ∧ f c = u := by
  cases op <;> simp [map]

theorem map_eq_acquire : op.map f = .acquire lock t ↔ ∃ h, op = .acquire lock h ∧ f h = t := by
  cases op <;> simp [map, and_assoc, and_left_comm]

theorem map_eq_release : op.map f = .release lock t ↔ ∃ h, op = .release lock h ∧ f h = t := by
  cases op <;> simp [map, and_assoc, and_left_comm]

theorem map_eq_access : op.map f = .access t a ↔ ∃ h, op = .access h a ∧ f h = t := by
  cases op <;> simp [map, and_comm]

theorem map_eq_forget : op.map f = .forget x ↔ op = .forget x := by
  cases op <;> simp [map]

end Op

/-! ### Chronicles of one outline -/

namespace Event

/-- The operation by the identities of its threads. -/
def bare (e : Event) : Op Nat := e.op.map (·.thread)

/-- What the order depends on: the operation, and whether it takes part. -/
def outline (e : Event) : Op Nat × Bool := (e.bare, e.effective)

variable {e : Event} {t : Nat}

theorem actor?_eq (e : Event) : e.actor? = e.bare.actor? :=
  (Op.actor?_map _ _).symm

theorem tells_iff : e.Tells t ↔ e.bare.actor? = some t ∨ ∃ p, e.bare = .fork p t := by
  rw [Tells, actor?_eq]
  refine or_congr_right ⟨?_, ?_⟩
  · rintro ⟨p, c, hop, rfl⟩
    exact ⟨p.thread, by rw [bare, hop]; rfl⟩
  · rintro ⟨p, hbare⟩
    obtain ⟨q, c, hop, -, hc⟩ := Op.map_eq_fork.mp hbare
    exact ⟨q, c, hop, hc⟩

theorem asks_iff : e.Asks t ↔ e.bare.actor? = some t ∨ ∃ p, e.bare = .join p t := by
  rw [Asks, actor?_eq]
  refine or_congr_right ⟨?_, ?_⟩
  · rintro ⟨p, c, hop, rfl⟩
    exact ⟨p.thread, by rw [bare, hop]; rfl⟩
  · rintro ⟨p, hbare⟩
    obtain ⟨q, c, hop, -, hc⟩ := Op.map_eq_join.mp hbare
    exact ⟨q, c, hop, hc⟩

end Event

namespace Chronicle

variable {H H' : Chronicle} {i j n : Nat} {e : Event} {x : Address} {v : Visit}

/-- Whether the same operations take part in the order of two runs. -/
def Alike (H H' : Chronicle) : Prop := H.map Event.outline = H'.map Event.outline

theorem Alike.symm (h : H.Alike H') : H'.Alike H := Eq.symm h

theorem Alike.getElem? (h : H.Alike H') (i : Nat) :
    H[i]?.map Event.outline = H'[i]?.map Event.outline := by
  rw [← List.getElem?_map, ← List.getElem?_map, h]

theorem Alike.exists_at (h : H.Alike H') (hi : H.At i e) :
    ∃ e', H'.At i e' ∧ e'.bare = e.bare := by
  have hget := h.getElem? i
  rw [hi.1, Option.map_some, eq_comm, Option.map_eq_some_iff] at hget
  obtain ⟨e', he', hout⟩ := hget
  obtain ⟨hbare, heff⟩ := Prod.mk.inj hout
  exact ⟨e', ⟨he', heff.trans hi.2⟩, hbare⟩

/-- A link carries over to another run if its two operations do, and if no operation that
lies between them there replaces what a lock had published without having a counterpart that
lies between them here. -/
theorem Link.of_bare {i' j' : Nat} (hlink : H.Link i j) (hij' : i' < j')
    (hi : ∀ e, H.At i e → ∃ e', H'.At i' e' ∧ e'.bare = e.bare)
    (hj : ∀ e, H.At j e → ∃ e', H'.At j' e' ∧ e'.bare = e.bare)
    (hbetween : ∀ k' g' lock, i' < k' → k' < j' → H'.At k' g' → g'.op.replaces lock = true →
      ∃ k g, i < k ∧ k < j ∧ H.At k g ∧ g.bare = g'.bare) : H'.Link i' j' := by
  obtain ⟨-, e, f, he, hf, hcases⟩ := hlink.cases
  obtain ⟨e', he', hbe⟩ := hi e he
  obtain ⟨f', hf', hbf⟩ := hj f hf
  rcases hcases with ⟨t, htells, hasks⟩ | ⟨lock, t, u, hrelease, hacquire, latest⟩
  · rw [Event.tells_iff, ← hbe, ← Event.tells_iff] at htells
    rw [Event.asks_iff, ← hbf, ← Event.asks_iff] at hasks
    exact link_of_tells hij' he' hf' htells hasks
  · obtain ⟨t', hop, -⟩ := Op.map_eq_release.mp (hbe.trans (by rw [Event.bare, hrelease]; rfl))
    obtain ⟨u', hop', -⟩ := Op.map_eq_acquire.mp (hbf.trans (by rw [Event.bare, hacquire]; rfl))
    refine .edge (.lock hij' he' hf' hop hop' fun k' g' hik hkj hg' => ?_)
    rw [← Bool.not_eq_true]
    intro hreplaces
    obtain ⟨k, g, hik, hkj, hg, hbg⟩ := hbetween k' g' lock hik hkj hg' hreplaces
    rw [← Op.replaces_map (·.thread), ← Event.bare, ← hbg, Event.bare, Op.replaces_map,
      latest k g hik hkj hg] at hreplaces
    exact Bool.noConfusion hreplaces

theorem Link.of_alike (hlink : H.Link i j) (h : H.Alike H') : H'.Link i j := by
  refine hlink.of_bare hlink.lt (fun e => h.exists_at) (fun e => h.exists_at)
    fun k g lock hik hkj hg _ => ?_
  obtain ⟨g', hg', hbare⟩ := h.symm.exists_at hg
  exact ⟨k, g', hik, hkj, hg', hbare⟩

theorem Alike.happensBefore_iff (h : H.Alike H') : H.HappensBefore i j ↔ H'.HappensBefore i j :=
  ⟨Relation.TransGen.mono (fun _ _ hl => Link.of_alike hl h) i j,
    Relation.TransGen.mono (fun _ _ hl => Link.of_alike hl h.symm) i j⟩

theorem Made.of_alike (hmade : H.Made x v) (h : H.Alike H') : H'.Made x v := by
  obtain ⟨e, t, he, hop, ht⟩ := hmade
  obtain ⟨e', he', hbare⟩ := h.exists_at he
  obtain ⟨t', hop', ht'⟩ := Op.map_eq_access.mp (hbare.trans (by rw [Event.bare, hop]; rfl))
  exact ⟨e', t', he', hop', ht'.trans ht⟩

theorem mem_visits_of_alike (hmem : v ∈ H.visits x n) (h : H.Alike H') : v ∈ H'.visits x n := by
  obtain ⟨hlt, hmade, hkeep⟩ := mem_visits.mp hmem
  refine mem_visits.mpr ⟨hlt, hmade.of_alike h, fun k e hk hkn he hop => ?_⟩
  have hget := h.symm.getElem? k
  rw [he, Option.map_some, eq_comm, Option.map_eq_some_iff] at hget
  obtain ⟨e', he', hout⟩ := hget
  have hbare : e'.bare = .forget x := (Prod.mk.inj hout).1.trans (by rw [Event.bare, hop]; rfl)
  exact hkeep k e' hk hkn he' (Op.map_eq_forget.mp hbare)

theorem Racy.of_alike (hracy : H.Racy x n) (h : H.Alike H') : H'.Racy x n := by
  obtain ⟨w, hw, v, hv, hconflict, hwv, hvw⟩ := hracy
  rw [h.happensBefore_iff] at hwv hvw
  exact ⟨w, mem_visits_of_alike hw h, v, mem_visits_of_alike hv h, hconflict, hwv, hvw⟩

end Chronicle

/-! ### Operations that look the same are let through alike -/

namespace Roster

variable {K : Nat} {r r' : Roster} {h h' : Handle} {op op' : Op Handle}

theorem status?_eq (hgone : r.gone = r'.gone) (hh : h.seenBy r.tag = h'.seenBy r'.tag) :
    r.status? h = r'.status? h' := by
  obtain ⟨howner, hthread⟩ := Prod.mk.inj hh
  have hiff : h.owner = r.tag ↔ h'.owner = r'.tag := by
    rw [← beq_iff_eq (a := h.owner), howner, beq_iff_eq]
  simp only [status?, hiff, hthread, hgone]

theorem lone?_eq (hgone : r.gone = r'.gone) (hh : h.seenBy r.tag = h'.seenBy r'.tag) :
    r.lone? h = r'.lone? h' := by
  have hthread : h.thread = h'.thread := (Prod.mk.inj hh).2
  simp only [lone?, foreign?, exited?, status?_eq hgone hh, hthread]

theorem pair?_eq {p p' c c' : Handle} (hgone : r.gone = r'.gone)
    (hp : p.seenBy r.tag = p'.seenBy r'.tag) (hc : c.seenBy r.tag = c'.seenBy r'.tag) :
    r.pair? p c = r'.pair? p' c' := by
  have hthread : p.thread = p'.thread := (Prod.mk.inj hp).2
  have hthread' : c.thread = c'.thread := (Prod.mk.inj hc).2
  simp only [pair?, foreign?, same?, exited?, status?_eq hgone hp, status?_eq hgone hc, hthread,
    hthread']

theorem refusal?_eq (hgone : r.gone = r'.gone)
    (hop : op.map (·.seenBy r.tag) = op'.map (·.seenBy r'.tag)) :
    r.refusal? K op = r'.refusal? K op' := by
  cases op <;> cases op' <;> simp only [Op.map, reduceCtorEq, Op.fork.injEq, Op.join.injEq,
    Op.exit.injEq, Op.acquire.injEq, Op.release.injEq, Op.access.injEq] at hop
  case start.start => simp only [refusal?, full?, hgone]
  case fork.fork p c p' c' =>
    have hthread : c.thread = c'.thread := (Prod.mk.inj hop.2).2
    simp only [refusal?, pair?_eq hgone hop.1 hop.2, exited?, status?_eq hgone hop.2, hthread]
  case join.join => exact pair?_eq hgone hop.1 hop.2
  case exit.exit => exact lone?_eq hgone hop
  case acquire.acquire => exact lone?_eq hgone hop.2
  case release.release => exact lone?_eq hgone hop.2
  case access.access => exact lone?_eq hgone hop.1
  all_goals rfl

theorem gone_follow_eq (hgone : r.gone = r'.gone)
    (hop : op.map (·.thread) = op'.map (·.thread)) :
    (r.follow op).gone = (r'.follow op').gone := by
  cases op <;> cases op' <;> simp_all [Op.map, follow]

theorem tag_follow (r : Roster) (op : Op Handle) : (r.follow op).tag = r.tag := by
  cases op <;> rfl

end Roster

theorem Op.map_thread_of_map_seenBy {op op' : Op Handle} {tag tag' : Nat}
    (h : op.map (·.seenBy tag) = op'.map (·.seenBy tag')) :
    op.map (·.thread) = op'.map (·.thread) := by
  have hsnd := congrArg (Op.map Prod.snd) h
  rwa [Op.map_map, Op.map_map] at hsnd

namespace Detector

variable {rule rule' : Rule} {K : Nat} {d d₁ : Detector rule K} {d' d₁' : Detector rule' K}
  {op op' : Op Handle} {result result' : Except (Failure Error) Value} {config config' : Config}
  {tag tag' : Nat}

/-- Where no clock runs out, an operation goes through exactly if the roster does not
refuse it. -/
theorem Handled.cases_of_not_overflowed (h : d.Handled op d₁ result)
    (ho : (⟨op, result⟩ : Event).overflowed = false) :
    (d.roster.refusal? K op ≠ none ∧ (⟨op, result⟩ : Event).effective = false ∧
        d₁.roster = d.roster) ∨
      d.roster.refusal? K op = none ∧ (⟨op, result⟩ : Event).effective = true ∧
        d₁.roster = d.roster.follow op := by
  cases h with
  | refused hrefusal hresult hroster =>
    subst hresult
    exact .inl ⟨by simp [hrefusal], by simp [Event.effective, Event.succeeded, ho], hroster⟩
  | done hrefusal _ hresult hroster =>
    subst hresult
    exact .inr ⟨hrefusal, rfl, hroster⟩
  | overflowed _ _ _ hresult =>
    subst hresult
    simp [Event.overflowed] at ho

theorem tag_roster_after (h : create rule K config tag = .ok d) (ops : List (Op Handle))
    (ho : (d.chronicle ops).NoOverflow) (n : Nat) : (d.after ops n).roster.tag = tag := by
  induction n with
  | zero =>
    obtain ⟨-, rfl⟩ := create_eq_ok h
    rfl
  | succ n ih =>
    cases hop : ops[n]? with
    | none => rwa [after_succ_of_none d hop]
    | some op =>
      have hevent : (d.chronicle ops)[n]? = some ⟨op, ((d.after ops n).step op).result⟩ := by
        rw [getElem?_chronicle, hop, Option.map_some]
      rw [after_succ d hop]
      rcases (handled_after h ops n op).cases_of_not_overflowed
        (ho _ (List.mem_of_getElem? hevent)) with ⟨-, -, hroster⟩ | ⟨-, -, hroster⟩
      · rw [hroster, ih]
      · rw [hroster, Roster.tag_follow, ih]

section Alike

variable {ops ops' : List (Op Handle)} (h : create rule K config tag = .ok d)
  (h' : create rule' K config' tag' = .ok d')
  (hops : ops.map (Op.map (·.seenBy tag)) = ops'.map (Op.map (·.seenBy tag')))
  (ho : (d.chronicle ops).NoOverflow) (ho' : (d'.chronicle ops').NoOverflow)
include h h' hops ho ho'

/-- As long as the rosters agree, the next operation goes through in both runs or in
neither, and the rosters agree afterwards. -/
theorem outline_eq_of_roster {n : Nat}
    (hgone : (d.after ops n).roster.gone = (d'.after ops' n).roster.gone) :
    (d.chronicle ops)[n]?.map Event.outline = (d'.chronicle ops')[n]?.map Event.outline ∧
      (d.after ops (n + 1)).roster.gone = (d'.after ops' (n + 1)).roster.gone := by
  have hnth : ops[n]?.map (Op.map (·.seenBy tag)) = ops'[n]?.map (Op.map (·.seenBy tag')) := by
    rw [← List.getElem?_map, ← List.getElem?_map, hops]
  have hevent := getElem?_chronicle d ops n
  have hevent' := getElem?_chronicle d' ops' n
  cases hop : ops[n]? with
  | none =>
    have hop' : ops'[n]? = none := by simpa [hop, eq_comm] using hnth
    rw [hevent, hevent', hop, hop', after_succ_of_none d hop, after_succ_of_none d' hop']
    exact ⟨rfl, hgone⟩
  | some op =>
    rw [hop, Option.map_some, eq_comm, Option.map_eq_some_iff] at hnth
    obtain ⟨op', hop', hseen⟩ := hnth
    rw [hop, Option.map_some] at hevent
    rw [hop', Option.map_some] at hevent'
    have hbare := (Op.map_thread_of_map_seenBy hseen).symm
    have hrefusal : (d.after ops n).roster.refusal? K op =
        (d'.after ops' n).roster.refusal? K op' := by
      refine Roster.refusal?_eq hgone ?_
      rw [tag_roster_after h ops ho n, tag_roster_after h' ops' ho' n]
      exact hseen.symm
    rw [hevent, hevent', after_succ d hop, after_succ d' hop']
    simp only [Option.map_some, Event.outline, Event.bare, hbare, Option.some.injEq,
      Prod.mk.injEq, true_and]
    have hcases := (handled_after h ops n op).cases_of_not_overflowed
      (ho _ (List.mem_of_getElem? hevent))
    have hcases' := (handled_after h' ops' n op').cases_of_not_overflowed
      (ho' _ (List.mem_of_getElem? hevent'))
    rcases hcases with ⟨hr, heff, hroster⟩ | ⟨hr, heff, hroster⟩
    · rcases hcases' with ⟨-, heff', hroster'⟩ | ⟨hr', -⟩
      · exact ⟨heff.trans heff'.symm, by rw [hroster, hroster', hgone]⟩
      · exact absurd (hrefusal.trans hr') hr
    · rcases hcases' with ⟨hr', -⟩ | ⟨-, heff', hroster'⟩
      · exact absurd (hrefusal.symm.trans hr) hr'
      · rw [hroster, hroster']
        exact ⟨heff.trans heff'.symm, Roster.gone_follow_eq hgone hbare⟩

theorem roster_after_eq (n : Nat) :
    (d.after ops n).roster.gone = (d'.after ops' n).roster.gone := by
  induction n with
  | zero =>
    obtain ⟨-, rfl⟩ := create_eq_ok h
    obtain ⟨-, rfl⟩ := create_eq_ok h'
    rfl
  | succ n ih => exact (outline_eq_of_roster h h' hops ho ho' ih).2

/-- Told of the same operations, two detectors have chronicles of one outline, whatever
their rules and options are. -/
theorem chronicle_alike : (d.chronicle ops).Alike (d'.chronicle ops') := by
  refine List.ext_getElem? fun n => ?_
  rw [List.getElem?_map, List.getElem?_map]
  exact (outline_eq_of_roster h h' hops ho ho' (roster_after_eq h h' hops ho ho' n)).1

end Alike

/-- The epoch rule does not miss a location that the precise rule flags. The two detectors
are told of the same operations, where a handle is the same to both if both take it for
their own or neither does and it has the same identity. The options do not matter. -/
theorem epoch_flags_of_precise_flags {p : Detector .precise K} {e : Detector .epoch K}
    (hp : create .precise K config tag = .ok p) (he : create .epoch K config' tag' = .ok e)
    {ops ops' : List (Op Handle)}
    (hops : ops.map (Op.map (·.seenBy tag)) = ops'.map (Op.map (·.seenBy tag')))
    (hpo : (p.chronicle ops).NoOverflow) (heo : (e.chronicle ops').NoOverflow) (n : Nat)
    (x : Address) (hflagged : 0 < (p.after ops n).raceCount x) :
    0 < (e.after ops' n).raceCount x := by
  have halike := chronicle_alike hp he hops hpo heo
  have hracy := (racy_of_raceCount_pos hp ops hflagged).of_alike halike
  exact raceCount_pos_of_racy he ops' heo hracy

theorem epoch_flags_clash : 0 < ((forThree .epoch).after clash 4).raceCount 7 :=
  epoch_flags_of_precise_flags (create_forThree .precise) (create_forThree .epoch) rfl
    (by decide) (by decide) 4 7 (by decide)

end Detector

end RaceWatch
