import RaceWatch.Proofs.Adjacent
import RaceWatch.Proofs.Agreement

/-!
Leaving an access out of a run. An access hands nothing on but to the later operations of
its own thread, and it draws on nothing but what that thread knows. So if one is left out,
the order between all other operations stays as it is, and so do the visits of a location
that the access does not count for.
-/

namespace RaceWatch

/-! ### Positions -/

/-- Where an operation stands before the one at a position is left out. -/
def shift (p i : Nat) : Nat := if i < p then i else i + 1

section

variable {p i j : Nat}

theorem shift_of_lt (h : i < p) : shift p i = i := if_pos h

theorem shift_of_le (h : p ≤ i) : shift p i = i + 1 := if_neg (Nat.not_lt_of_le h)

theorem shift_lt_shift_iff : shift p i < shift p j ↔ i < j := by
  rw [shift, shift]
  split <;> split <;> omega

theorem exists_shift_eq {k : Nat} (h : k ≠ p) : ∃ i, shift p i = k := by
  rcases Nat.lt_or_gt_of_ne h with h | h
  · exact ⟨k, shift_of_lt h⟩
  · refine ⟨k - 1, ?_⟩
    rw [shift_of_le (by omega)]
    omega

end

/-- A visit as it was before the operation at a position was left out. -/
def Visit.shift (p : Nat) (v : Visit) : Visit := { v with position := RaceWatch.shift p v.position }

namespace Event

variable {e e' : Event}

/-- What a location is visited by can be told from the outline of an event. -/
theorem revisit_of_outline (h : e.outline = e'.outline) (x : Address) (visits : List Visit)
    (i : Nat) : e.revisit x visits i = e'.revisit x visits i := by
  obtain ⟨hbare, heff⟩ := Prod.mk.inj h
  cases hop : e.op with
  | access t a =>
    obtain ⟨t', hop', ht⟩ := Op.map_eq_access.mp (hbare.symm.trans (by rw [bare, hop]; rfl))
    rw [effective_of_access hop, effective_of_access hop'] at heff
    simp only [revisit, hop, hop', heff, ht]
  | forget y =>
    have hop' : e'.op = .forget y := Op.map_eq_forget.mp (hbare.symm.trans (by rw [bare, hop]; rfl))
    simp only [revisit, hop, hop']
  | start | fork | join | exit | acquire | release | forgetLock | init =>
    simp only [bare, hop] at hbare
    cases hop' : e'.op <;> simp only [hop', Op.map, reduceCtorEq] at hbare
    simp only [revisit, hop, hop']

theorem map_shift_revisit (e : Event) (x : Address) (visits : List Visit) (p i : Nat) :
    (e.revisit x visits i).map (Visit.shift p) =
      e.revisit x (visits.map (Visit.shift p)) (shift p i) := by
  cases hop : e.op with
  | access t a =>
    simp only [revisit, hop]
    split
    · rw [List.map_append]
      rfl
    · rfl
  | forget y =>
    simp only [revisit, hop]
    split <;> rfl
  | start | fork | join | exit | acquire | release | forgetLock | init => simp only [revisit, hop]

end Event

namespace Chronicle

/-- A chronicle is another one but for an access. -/
structure Omits (H H' : Chronicle) (p : Nat) (t : Handle) (a : Access) : Prop where
  omitted : ∃ e, H[p]? = some e ∧ e.op = .access t a
  outline_eq : ∀ i, H'[i]?.map Event.outline = H[shift p i]?.map Event.outline

variable {H H' : Chronicle} {p i j k n : Nat} {t : Handle} {a : Access} {e e' : Event}
  {x : Address} {visits : List Visit}

namespace Omits

/-- An access is left out between two parts, of which the second one may be another chronicle
of the same outline. -/
theorem of_append {rest rest' : Chronicle} (hop : e.op = .access t a) (h : rest'.Alike rest) :
    Omits (H ++ e :: rest) (H ++ rest') H.length t a where
  omitted := ⟨e, by simp, hop⟩
  outline_eq i := by
    rcases Nat.lt_or_ge i H.length with hi | hi
    · rw [shift_of_lt hi, List.getElem?_append_left hi, List.getElem?_append_left hi]
    · have hsucc : i + 1 - H.length = (i - H.length) + 1 := by omega
      rw [shift_of_le hi, List.getElem?_append_right hi,
        List.getElem?_append_right (Nat.le_succ_of_le hi), hsucc, List.getElem?_cons_succ]
      exact h.getElem? _

theorem exists_at (h : H.Omits H' p t a) (hi : H'.At i e') :
    ∃ e, H.At (shift p i) e ∧ e.bare = e'.bare := by
  have hget := h.outline_eq i
  rw [hi.1, Option.map_some, eq_comm, Option.map_eq_some_iff] at hget
  obtain ⟨e, he, hout⟩ := hget
  obtain ⟨hbare, heff⟩ := Prod.mk.inj hout
  exact ⟨e, ⟨he, heff.trans hi.2⟩, hbare⟩

theorem exists_at_of_shift (h : H.Omits H' p t a) (hi : H.At (shift p i) e) :
    ∃ e', H'.At i e' ∧ e'.bare = e.bare := by
  have hget := h.outline_eq i
  rw [hi.1, Option.map_some, Option.map_eq_some_iff] at hget
  obtain ⟨e', he', hout⟩ := hget
  obtain ⟨hbare, heff⟩ := Prod.mk.inj hout
  exact ⟨e', ⟨he', heff.trans hi.2⟩, hbare⟩

theorem op_eq (h : H.Omits H' p t a) (hp : H[p]? = some e) : e.op = .access t a := by
  obtain ⟨f, hf, hop⟩ := h.omitted
  obtain rfl := Option.some.inj (hp.symm.trans hf)
  exact hop

/-! ### The order -/

theorem link_shift (h : H.Omits H' p t a) (hlink : H'.Link i j) :
    H.Link (shift p i) (shift p j) := by
  refine hlink.of_bare (shift_lt_shift_iff.mpr hlink.lt) (fun e => h.exists_at)
    (fun e => h.exists_at) fun k' g' lock hik hkj hg' hreplaces => ?_
  -- The access that is left out replaces nothing.
  have hk : k' ≠ p := by
    rintro rfl
    simp [h.op_eq hg'.1, Op.replaces] at hreplaces
  obtain ⟨k, rfl⟩ := exists_shift_eq hk
  obtain ⟨g, hg, hbare⟩ := h.exists_at_of_shift hg'
  exact ⟨k, g, shift_lt_shift_iff.mp hik, shift_lt_shift_iff.mp hkj, hg, hbare⟩

theorem link_of_shift (h : H.Omits H' p t a) (hlink : H.Link (shift p i) (shift p j)) :
    H'.Link i j := by
  refine hlink.of_bare (shift_lt_shift_iff.mp hlink.lt) (fun e => h.exists_at_of_shift)
    (fun e => h.exists_at_of_shift) fun k g lock hik hkj hg _ => ?_
  obtain ⟨g', hg', hbare⟩ := h.exists_at hg
  exact ⟨shift p k, g', shift_lt_shift_iff.mpr hik, shift_lt_shift_iff.mpr hkj, hg', hbare⟩

/-- What leads to the access and from there on leads past it as well, by way of its
thread. -/
theorem link_past (h : H.Omits H' p t a) (hi : H.Link i p) (hj : H.Link p j) : H.Link i j := by
  obtain ⟨hip, e, f, he, hf, hcases⟩ := hi.cases
  obtain ⟨hpj, f', g, hf', hg, hcases'⟩ := hj.cases
  have hop := h.op_eq hf.1
  have hop' := h.op_eq hf'.1
  rcases hcases with ⟨u, htells, hasks⟩ | ⟨lock, u, v, -, hacquire, -⟩
  · rcases hcases' with ⟨u', htells', hasks'⟩ | ⟨lock, u', v, hrelease, -, -⟩
    · obtain rfl : t.thread = u := by simpa [Event.Asks, Event.actor?, hop, Op.actor?] using hasks
      obtain rfl : t.thread = u' := by
        simpa [Event.Tells, Event.actor?, hop', Op.actor?] using htells'
      exact link_of_tells (hip.trans hpj) he hg htells hasks'
    · simp [hop'] at hrelease
  · simp [hop] at hacquire

/-- Where the order leads to: to an operation that is not left out it also leads without the
access, and to the access it leads from one that is not. -/
theorem happensBefore_cases (h : H.Omits H' p t a) (hhb : H.HappensBefore (shift p i) k) :
    (∀ j, shift p j = k → H'.HappensBefore i j) ∧
      (k = p → ∃ l, (l = i ∨ H'.HappensBefore i l) ∧ H.Link (shift p l) p) := by
  -- One more link, from an operation that has been reached already.
  have hnext {l k : Nat} (hl : l = i ∨ H'.HappensBefore i l) (hlink : H.Link (shift p l) k) :
      (∀ j, shift p j = k → H'.HappensBefore i j) ∧
        (k = p → ∃ l, (l = i ∨ H'.HappensBefore i l) ∧ H.Link (shift p l) p) := by
    refine ⟨?_, ?_⟩
    · rintro j rfl
      have hlink' := h.link_of_shift hlink
      rcases hl with rfl | hl
      · exact .single hlink'
      · exact .tail hl hlink'
    · rintro rfl
      exact ⟨l, hl, hlink⟩
  induction hhb with
  | single hlink => exact hnext (.inl rfl) hlink
  | @tail m k _ hlink ih =>
    by_cases hm : m = p
    · subst hm
      obtain ⟨l, hl, hlp⟩ := ih.2 rfl
      exact hnext hl (h.link_past hlp hlink)
    · obtain ⟨l, rfl⟩ := exists_shift_eq hm
      exact hnext (.inr (ih.1 l rfl)) hlink

/-- The order between the operations that are not left out stays as it is. -/
theorem happensBefore_iff (h : H.Omits H' p t a) :
    H.HappensBefore (shift p i) (shift p j) ↔ H'.HappensBefore i j :=
  ⟨fun hhb => (h.happensBefore_cases hhb).1 j rfl,
    Relation.TransGen.lift (shift p) (fun _ _ => h.link_shift) i j⟩

theorem race?_shift (h : H.Omits H' p t a) (x : Address) (w v : Visit) :
    H.race? x (w.shift p) (v.shift p) = H'.race? x w v := by
  have hiff := not_congr (h.happensBefore_iff (i := w.position) (j := v.position))
  rw [race?, race?]
  by_cases hrace : w.thread ≠ v.thread ∧ ¬ H'.HappensBefore w.position v.position
  · rw [if_pos hrace, if_pos ⟨hrace.1, hiff.mpr hrace.2⟩]
    rfl
  · rw [if_neg hrace, if_neg fun hrace' => hrace ⟨hrace'.1, hiff.mp hrace'.2⟩]

theorem adjacentRaces_map_shift (h : H.Omits H' p t a) (x : Address) (visits : List Visit) :
    H.adjacentRaces x (visits.map (Visit.shift p)) = H'.adjacentRaces x visits := by
  rw [adjacentRaces, ← List.map_tail, List.zip_map, List.filterMap_map, adjacentRaces]
  congr 1
  funext pair
  exact h.race?_shift x pair.1 pair.2

/-! ### The visits -/

theorem visits_succ_shift (h : H.Omits H' p t a)
    (hvisits : H.visits x (shift p n) = (H'.visits x n).map (Visit.shift p)) :
    H.visits x (shift p n + 1) = (H'.visits x (n + 1)).map (Visit.shift p) := by
  have hget := h.outline_eq n
  cases hn : H'[n]? with
  | none =>
    rw [hn, Option.map_none, eq_comm, Option.map_eq_none_iff] at hget
    rw [visits_succ_of_none hget, visits_succ_of_none hn, hvisits]
  | some e' =>
    rw [hn, Option.map_some, eq_comm, Option.map_eq_some_iff] at hget
    obtain ⟨e, he, hout⟩ := hget
    rw [Chronicle.visits_succ he, Chronicle.visits_succ hn, hvisits, Event.map_shift_revisit,
      Event.revisit_of_outline hout]

theorem visits_of_le (h : H.Omits H' p t a) (hn : n ≤ p) :
    H.visits x n = (H'.visits x n).map (Visit.shift p) := by
  induction n with
  | zero => rfl
  | succ n ih =>
    have hshift : shift p n = n := shift_of_lt hn
    have hsucc := h.visits_succ_shift (x := x) (n := n)
    rw [hshift] at hsucc
    exact hsucc (ih (Nat.le_of_succ_le hn))

/-- Once the visits are the same but for their positions, they stay so. -/
theorem visits_of_ge (h : H.Omits H' p t a) {m : Nat} (hpm : p ≤ m)
    (hm : H.visits x (m + 1) = (H'.visits x m).map (Visit.shift p)) (hn : m ≤ n) :
    H.visits x (n + 1) = (H'.visits x n).map (Visit.shift p) := by
  induction n, hn using Nat.le_induction with
  | base => exact hm
  | succ n hmn ih =>
    have hshift : shift p n = n + 1 := shift_of_le (hpm.trans hmn)
    have hsucc := h.visits_succ_shift (x := x) (n := n)
    rw [hshift] at hsucc
    exact hsucc ih

/-- The visits are the same but for their positions, if the access is to another location or
the location is forgotten after it. -/
theorem visits_eq (h : H.Omits H' p t a) (hpn : p ≤ n)
    (hx : a.address ≠ x ∨ ∃ q e, p ≤ q ∧ q < n ∧ H'[q]? = some e ∧ e.op = .forget x) :
    H.visits x (n + 1) = (H'.visits x n).map (Visit.shift p) := by
  rcases hx with hx | ⟨q, e', hpq, hqn, hq, hop'⟩
  · refine h.visits_of_ge le_rfl ?_ hpn
    obtain ⟨e, he, hop⟩ := h.omitted
    have hnone : e.revisit x (H.visits x p) p = H.visits x p := by simp [Event.revisit, hop, hx]
    rw [Chronicle.visits_succ he, hnone, h.visits_of_le le_rfl]
  · refine h.visits_of_ge (hpq.trans (Nat.le_succ q)) ?_ hqn
    have hget := h.outline_eq q
    rw [hq, shift_of_le hpq, Option.map_some, eq_comm, Option.map_eq_some_iff] at hget
    obtain ⟨e, he, hout⟩ := hget
    have hempty (visits : List Visit) (i : Nat) : e'.revisit x visits i = [] := by
      simp [Event.revisit, hop']
    rw [Chronicle.visits_succ he, Event.revisit_of_outline hout, hempty, Chronicle.visits_succ hq,
      hempty, List.map_nil]

end Omits

end Chronicle

end RaceWatch
