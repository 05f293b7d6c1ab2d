import RaceWatch.Proofs.Transcript
import RaceWatch.Proofs.Lockstep
import RaceWatch.Proofs.Ticks

/-!
Several detectors at work on one program do not get into each other's way. Each of them turns
away the handles of all others before it touches a clock, a lock or an entry. So what becomes
of a detector, and what it answers, is settled by the operations it is told of with handles of
its own, whatever goes on beside it.
-/

namespace RaceWatch

/-- The operation that an act tells a detector of, if it names no thread of another one. -/
def Act.ownCall? {K : Nat} (i : Nat) (a : Act Handle K) : Option (Op Handle) :=
  (a.tells? i).filter fun op => op.threads.all (·.owner == i)

namespace Detector

variable {rule : Rule} {K : Nat} {d : Detector rule K} {op : Op Handle} {h : Handle}

/-! ### Handles that are turned away -/

/-- An operation is refused for the first handle that the detector does not know, and then
nothing has changed. -/
theorem step_of_not_knows {known rest : List Handle} (hthreads : op.threads = known ++ h :: rest)
    (hknown : ∀ t ∈ known, d.Knows t) (hh : ¬d.Knows h) :
    d.step op = .fail d (.foreignThread h.thread) [] := by
  obtain ⟨e, he⟩ : ∃ e, d.registry.lookup h = .error e := by
    cases hl : d.registry.lookup h with
    | error e => exact ⟨e, rfl⟩
    | ok s => exact absurd ⟨s, hl⟩ hh
  obtain rfl := Registry.lookup_eq_error he
  cases op with
  | start | forgetLock | init | forget => simp [Op.threads] at hthreads
  | exit t | acquire _ t | release _ t | access t _ =>
    obtain ⟨rfl, rfl, -⟩ : known = [] ∧ t = h ∧ rest = [] := by
      cases known <;> simp_all [Op.threads]
    simp only [step, exit, acquire, release, access, Registry.exit, Registry.lookupAlive, he]
    rfl
  | fork p c | join p c =>
    obtain ⟨rfl, rfl, -⟩ | ⟨rfl, rfl, -⟩ :
        (known = [] ∧ p = h ∧ rest = [c]) ∨ (known = [p] ∧ c = h ∧ rest = []) := by
      rcases known with - | ⟨p', - | ⟨c', known⟩⟩ <;> simp_all [Op.threads]
    · simp only [step, fork, join, Registry.fork, Registry.join, Registry.lookupAlivePair,
        Registry.lookupPair, he]
      rfl
    · obtain ⟨s, hs⟩ := hknown p (List.mem_singleton_self p)
      simp only [step, fork, join, Registry.fork, Registry.join, Registry.lookupAlivePair,
        Registry.lookupPair, hs, he]
      rfl

theorem Knows.owner_eq (h' : d.Knows h) : h.owner = d.registry.tag := by
  obtain ⟨s, hs⟩ := h'
  exact (Registry.lookup_eq_ok.mp hs).1

/-! ### Handles that are handed out -/

theorem knows_iff : d.Knows h ↔
    h.owner = d.registry.tag ∧ h.thread ≠ noThread ∧ coordinateOf h.thread < d.registry.size := by
  simp only [Knows, Registry.lookup_eq_ok, Registry.state?, exists_and_left, Registry.size]
  split
  · next h0 => simp [h0]
  · next h0 => simp [h0, List.getElem?_eq_some_iff]

theorem Knows.step (h' : d.Knows h) (op : Op Handle) : (d.step op).state.Knows h := by
  obtain ⟨howner, hzero, hlt⟩ := knows_iff.mp h'
  exact knows_iff.mpr ⟨howner.trans (d.tag_step op).symm, hzero,
    hlt.trans_le (d.size_le_size_step op)⟩

/-- A detector knows the handles that it hands out. -/
theorem knows_of_result (hr : (d.step op).result = .ok (.handle h)) :
    (d.step op).state.Knows h := by
  obtain rfl := eq_start_of_result hr
  simp only [step, start, Registry.register, Reply.state_mapResult, Reply.state_mapState,
    Reply.result_mapResult, Reply.result_mapState] at hr ⊢
  cases hcap : checkCapacity K with
  | error e => simp [hcap, Except.map] at hr
  | ok =>
    simp only [hcap] at hr ⊢
    split at hr
    · simp [Except.map] at hr
    · next hfits =>
      rw [if_neg hfits]
      cases hs : (ThreadState.fresh (ownerOf d.registry.size) : Except _ (ThreadState K)) with
      | error f => simp [hs, Except.map] at hr
      | ok s =>
        simp only [hs, Reply.result_done, Except.map, Except.ok.injEq, Value.handle.injEq] at hr
        subst hr
        simp [knows_iff, Registry.size, ownerOf, noThread, coordinateOf]

end Detector

namespace Session

variable {K : Nat} {s s' : Session K} {log : List (Outcome K)} {i n : Nat} {a : Act Handle K}
  {r : Reply (Session K) Value} {rule : Rule} {d : Detector rule K} {op : Op Handle} {h : Handle}

/-- Whether the tag of each detector is its position. -/
def Tagged (s : Session K) : Prop :=
  ∀ i (any : AnyDetector K), s.detector? i = some any → any.2.registry.tag = i

theorem tagged_of_create {detectors : List (Rule × Config)} {cells : List (Address × Int)}
    (h : create K detectors cells = .ok s) : s.Tagged := by
  intro i any hany
  obtain ⟨all, hall, h⟩ := bind_eq_ok.mp h
  obtain rfl := Except.ok.inj h
  have hget := map_getElem?_of_mapM hall i
  have hany : all[i]? = some any := hany
  rw [hany, List.getElem?_zipIdx, Option.map_map, Option.map_some, Option.map_eq_some_iff] at hget
  obtain ⟨⟨rule, config⟩, -, hcreate⟩ := hget
  obtain ⟨d, hd, hd'⟩ := bind_eq_ok.mp hcreate
  obtain rfl := Except.ok.inj hd'
  obtain ⟨-, rfl⟩ := Detector.create_eq_ok hd
  simp [Registry.empty]

theorem Tagged.act (htag : s.Tagged) (hact : s.act? a = some r) (hplain : a.meddles = false) :
    r.state.Tagged := by
  intro i any hany
  cases hop : a.tells? i with
  | none =>
    rw [detector?_of_not_told hact hop hplain] at hany
    exact htag i any hany
  | some op =>
    obtain ⟨rule, d, htold⟩ := exists_told hact hop
    obtain rfl := Option.some.inj (htold.detector?_after.symm.trans hany)
    exact (d.tag_step op).trans (htag i _ htold.detector?_eq)

/-- A handle refers to a thread of the detector at the position that its tag names. -/
def Issued (s : Session K) (h : Handle) : Prop :=
  ∃ (rule : Rule) (d : Detector rule K), s.detector? h.owner = some ⟨rule, d⟩ ∧ d.Knows h

theorem Issued.act (h' : s.Issued h) (hact : s.act? a = some r) (hplain : a.meddles = false) :
    r.state.Issued h := by
  obtain ⟨rule, d, hd, hknows⟩ := h'
  cases hop : a.tells? h.owner with
  | none => exact ⟨rule, d, (detector?_of_not_told hact hop hplain).trans hd, hknows⟩
  | some op =>
    obtain ⟨rule', d', htold⟩ := exists_told hact hop
    cases htold.detector?_eq.symm.trans hd
    exact ⟨rule, _, htold.detector?_after, hknows.step op⟩

/-- A handle that an act hands out is one of a thread that there is. -/
theorem Tagged.issued_of_result (htag : s.Tagged) (hact : s.act? a = some r)
    (hr : r.result = .ok (.handle h)) : r.state.Issued h := by
  by_cases htells : ∃ i op, a.tells? i = some op
  · obtain ⟨i, op, hop⟩ := htells
    obtain ⟨rule, d, htold⟩ := exists_told hact hop
    have hresult := htold.result_eq
    rw [hr] at hresult
    have hknows := Detector.knows_of_result hresult.symm
    obtain rfl : h.owner = i :=
      hknows.owner_eq.trans ((d.tag_step op).trans (htag i _ htold.detector?_eq))
    exact ⟨rule, _, htold.detector?_after, hknows⟩
  · cases a with
    | call j | load j | store j => exact absurd ⟨j, _, if_pos rfl⟩ htells
    | «recall» j thread name? =>
      obtain ⟨⟨rule, d⟩, hd, hact⟩ := Option.bind_eq_some_iff.mp hact
      have hreply := Option.some.inj hact
      cases hh : d.registry.handle? thread with
      | none =>
        rw [hh] at hreply
        subst hreply
        simp at hr
      | some t =>
        rw [hh] at hreply
        subst hreply
        obtain rfl : t = h := by simpa using hr
        obtain ⟨st, hst, rfl⟩ := Option.map_eq_some_iff.mp hh
        obtain rfl : d.registry.tag = j := htag j _ hd
        have hknows : d.Knows ⟨d.registry.tag, thread⟩ :=
          ⟨st, Registry.lookup_eq_ok.mpr ⟨rfl, hst⟩⟩
        cases name? <;> exact ⟨rule, d, hd, hknows⟩
    | observe | look =>
      obtain rfl := Option.some.inj hact
      simp at hr

/-- The handles that are handed out while some things are done. -/
def handedOut (log : List (Outcome K)) : List Handle :=
  log.filterMap fun o => match o.result with
    | .ok (.handle h) => some h
    | _ => none

theorem mem_handedOut : h ∈ handedOut log ↔ ∃ o ∈ log, o.result = .ok (.handle h) := by
  simp only [handedOut, List.mem_filterMap]
  refine exists_congr fun o => and_congr_right fun _ => ?_
  split
  · next hr => simp [hr]
  · next hne => simpa using fun hr => hne h hr

/-- All handles that were handed out are of threads that there are. -/
theorem Does.issued_of_mem_handedOut (hdoes : s.Does log s') (htag : s.Tagged)
    (hplain : ∀ o ∈ log, o.act.meddles = false) (hmem : h ∈ handedOut log) : s'.Issued h := by
  obtain ⟨o, ho, hr⟩ := mem_handedOut.mp hmem
  clear hmem
  induction hdoes with
  | nil => simp at ho
  | cons hact hrest ih =>
    have hplain' := fun o ho => hplain o (List.mem_cons_of_mem _ ho)
    rcases List.mem_cons.mp ho with rfl | ho
    · exact hrest.keeps (P := (·.Issued h)) hplain' (fun hact hplain h => h.act hact hplain)
        (htag.issued_of_result hact hr)
    · exact ih (htag.act hact (hplain _ List.mem_cons_self)) hplain' ho

/-! ### One detector by itself -/

/-- An operation that is refused at once leaves the whole session as it is. -/
theorem Told.of_fail (htold : s.Told i op d r) {error : Error}
    (hstep : d.step op = .fail d error []) :
    r.result = .error (.error error) ∧ r.state = s := by
  obtain ⟨hresult, hstate⟩ := htold.of_error (.error error) (by rw [hstep]; rfl)
  refine ⟨hresult, hstate.trans ?_⟩
  obtain ⟨hlt, hget⟩ := List.getElem?_eq_some_iff.mp htold.detector?_eq
  rw [hstep, Reply.state_fail, ← hget, List.set_getElem_self]

/-- An operation that names a thread of another detector does nothing to the detector. -/
theorem detector?_of_not_ownCall (hact : s.act? a = some r) (hplain : a.meddles = false)
    (hd : s.detector? i = some ⟨rule, d⟩) (htag : d.registry.tag = i)
    (hnone : a.ownCall? i = none) : r.state.detector? i = some ⟨rule, d⟩ := by
  cases hop : a.tells? i with
  | none => exact (detector?_of_not_told hact hop hplain).trans hd
  | some op =>
    obtain ⟨rule', d', htold⟩ := exists_told hact hop
    cases htold.detector?_eq.symm.trans hd
    obtain ⟨t, ht, howner⟩ : ∃ t ∈ op.threads, t.owner ≠ i := by
      simpa [Act.ownCall?, hop, Option.filter_eq_none_iff] using hnone
    have hunknown : ¬d.Knows t := fun hknows => howner (hknows.owner_eq.trans htag)
    -- It need not be the first thread that the detector does not know.
    classical
    have hfind : (op.threads.find? fun t => decide (¬d.Knows t)).isSome = true := by
      rw [List.find?_isSome]
      exact ⟨t, ht, by simpa using hunknown⟩
    obtain ⟨h, hh⟩ := Option.isSome_iff_exists.mp hfind
    obtain ⟨hunknown, known, rest, hthreads, hknown⟩ := List.find?_eq_some_iff_append.mp hh
    have hstep := d.step_of_not_knows hthreads (by simpa using hknown) (by simpa using hunknown)
    rw [htold.detector?_after, hstep, Reply.state_fail]

/-- The operations that a detector is told of with handles of its own. -/
def ownCalls (i : Nat) (log : List (Outcome K)) : List (Op Handle) :=
  log.filterMap (·.act.ownCall? i)

/-- What these operations hand back, but for the values that are read. -/
def ownResults (i : Nat) (log : List (Outcome K)) : List (Except (Failure Error) Value) :=
  log.filterMap fun o => (o.act.ownCall? i).map fun _ => o.result.map Value.unread

/-- A detector goes through the operations it is told of with handles of its own as if there
was nothing else. -/
theorem Does.detector?_eq (hdoes : s.Does log s') (hplain : ∀ o ∈ log, o.act.meddles = false)
    (hd : s.detector? i = some ⟨rule, d⟩) (htag : d.registry.tag = i) :
    s'.detector? i = some ⟨rule, d.run (ownCalls i log)⟩ ∧
      ownResults i log = d.results (ownCalls i log) := by
  induction hdoes generalizing d with
  | nil => exact ⟨hd, rfl⟩
  | @cons s s' o log hact _ ih =>
    have hplain' := fun o ho => hplain o (List.mem_cons_of_mem _ ho)
    cases hown : o.act.ownCall? i with
    | none =>
      have hd' := detector?_of_not_ownCall hact (hplain o List.mem_cons_self) hd htag hown
      obtain ⟨hrest, hresults⟩ := ih hplain' hd' htag
      have hcalls : ownCalls i (o :: log) = ownCalls i log := List.filterMap_cons_none hown
      have hanswers : ownResults i (o :: log) = ownResults i log :=
        List.filterMap_cons_none (by rw [hown]; rfl)
      rw [hcalls, hanswers]
      exact ⟨hrest, hresults⟩
    | some op =>
      obtain ⟨hop, -⟩ := Option.filter_eq_some_iff.mp hown
      obtain ⟨rule', d', htold⟩ := exists_told hact hop
      cases htold.detector?_eq.symm.trans hd
      obtain ⟨hrest, hresults⟩ := ih hplain' htold.detector?_after ((d.tag_step op).trans htag)
      have hcalls : ownCalls i (o :: log) = op :: ownCalls i log := List.filterMap_cons_some hown
      have hanswers : ownResults i (o :: log) = o.result.map Value.unread :: ownResults i log :=
        List.filterMap_cons_some (by rw [hown]; rfl)
      rw [hcalls, hanswers, hresults, Detector.results, ← htold.result_eq]
      exact ⟨hrest, rfl⟩

/-- Detectors do not interfere. Some detectors are created one after the other, and a script
works with all of them and passes any of them the handles of all. An operation that is told a
detector with a handle of another one is refused for the first such handle, and it leaves all
detectors and all else as they were. And each detector ends up as if there was no other one
and it had been told of nothing but the operations with handles of its own, and it has
answered these in the same way, but for the values that were read from cells. -/
theorem detectors_do_not_interfere {detectors : List (Rule × Config)}
    {cells : List (Address × Int)} (h : create K detectors cells = .ok s) (script : Script K)
    (hplain : ∀ o ∈ script.log s, o.act.meddles = false) :
    (∀ n o i op own g rest, (script.log s)[n]? = some o → o.act.tells? i = some op →
      (∀ t ∈ op.threads, t ∈ handedOut ((script.log s).take n)) →
      op.threads = own ++ g :: rest → (∀ t ∈ own, t.owner = i) → g.owner ≠ i →
      o.result = .error (.error (.foreignThread g.thread)) ∧
        o.after = s.upTo (script.log s) n) ∧
    ∀ (i : Nat) rule config, detectors[i]? = some (rule, config) →
      ∃ d, Detector.create rule K config i = .ok d ∧
        (script.run s).1.detector? i = some ⟨rule, d.run (ownCalls i (script.log s))⟩ ∧
        ownResults i (script.log s) = d.results (ownCalls i (script.log s)) := by
  have hdoes := s.does_log script
  constructor
  · intro n o i op own g rest hn hop hissued hthreads hown hg
    have hplain' : ∀ o ∈ (script.log s).take n, o.act.meddles = false :=
      fun o ho => hplain o (List.mem_of_mem_take ho)
    obtain ⟨rule, d, htold⟩ := exists_told (hdoes.act?_upTo hn) hop
    have htagged : (s.upTo (script.log s) n).Tagged :=
      (hdoes.take n).keeps hplain' (fun hact hplain h => h.act hact hplain) (tagged_of_create h)
    have htag : d.registry.tag = i := htagged i _ htold.detector?_eq
    refine htold.of_fail (d.step_of_not_knows hthreads (fun t ht => ?_) fun hknows => ?_)
    · have hmem : t ∈ op.threads := by rw [hthreads]; exact List.mem_append_left _ ht
      obtain ⟨rule', d', hd', hknows⟩ := (hdoes.take n).issued_of_mem_handedOut
        (tagged_of_create h) hplain' (hissued t hmem)
      rw [hown t ht] at hd'
      cases htold.detector?_eq.symm.trans hd'
      exact hknows
    · exact hg (hknows.owner_eq.trans htag)
  · intro i rule config hi
    obtain ⟨d, hcreate, hd⟩ := exists_detector?_of_create h hi
    exact ⟨d, hcreate, hdoes.detector?_eq hplain hd (tagged_of_create h i _ hd)⟩

/-- An epoch detector and a precise one, and a cell. -/
def sideBySide : Session 2 :=
  ⟨[⟨.epoch, ⟨.default, .empty 0, .empty, .empty, 0⟩⟩,
      ⟨.precise, ⟨.default, .empty 1, .empty, .empty, 0⟩⟩],
    .ofList [((7, 5) : Address × Int)], ∅⟩

/-- Each detector gets threads of its own. The first one is told of a fork of one of its
threads to a thread of the second one. Then a thread of the first one reads the cell in the
middle of an access that a thread of the second one makes to it, and is passed to the second
detector too. -/
def mingled : Script 2 :=
  .act (.call 0 .start none) <| .act (.call 1 .start none) <| .act (.call 0 .start none) <|
    .act (.call 0 (.fork (.handle ⟨0, 1⟩) (.handle ⟨1, 1⟩)) none) <|
    .access 1 (.handle ⟨1, 1⟩) ⟨7, .write⟩ (.act (.load 0 (.handle ⟨0, 2⟩) 7) .finish) false <|
    .act (.store 1 (.handle ⟨0, 2⟩) 7 6) .finish

theorem mingled_apart :
    create 2 [(.epoch, .default), (.precise, .default)] [(7, 5)] = .ok sideBySide ∧
    (∃ o, (mingled.log sideBySide)[3]? = some o ∧
      o.result = .error (.error (.foreignThread 1)) ∧
      o.after = sideBySide.upTo (mingled.log sideBySide) 3) ∧
    ∃ d, Detector.create .epoch 2 .default 0 = .ok d ∧
      (mingled.run sideBySide).1.detector? 0 =
        some ⟨.epoch, d.run [.start, .start, .access ⟨0, 2⟩ ⟨7, .read⟩]⟩ ∧
      d.results [.start, .start, .access ⟨0, 2⟩ ⟨7, .read⟩] =
        [.ok (.handle ⟨0, 1⟩), .ok (.handle ⟨0, 2⟩), .ok .unit] := by
  have h : create 2 [(.epoch, .default), (.precise, .default)] [(7, 5)] = .ok sideBySide := rfl
  obtain ⟨hforeign, halone⟩ := detectors_do_not_interfere h mingled (by decide)
  have hcalls : ownCalls 0 (mingled.log sideBySide) =
      [.start, .start, .access ⟨0, 2⟩ ⟨7, .read⟩] := by decide
  have hanswers : ownResults 0 (mingled.log sideBySide) =
      [.ok (.handle ⟨0, 1⟩), .ok (.handle ⟨0, 2⟩), .ok .unit] := by decide
  refine ⟨h, ⟨_, rfl, hforeign 3 _ 0 (.fork ⟨0, 1⟩ ⟨1, 1⟩) [⟨0, 1⟩] ⟨1, 1⟩ [] rfl rfl (by decide)
    rfl (by decide) (by decide)⟩, ?_⟩
  obtain ⟨d, hd, hend, hresults⟩ := halone 0 .epoch .default rfl
  rw [hcalls] at hend hresults
  exact ⟨d, hd, hend, hresults.symm.trans hanswers⟩

end Session

end RaceWatch
