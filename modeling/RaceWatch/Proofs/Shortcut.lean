import RaceWatch.Proofs.Admission
import RaceWatch.Proofs.Parts
import RaceWatch.Proofs.Settled

/-!
The epoch rule with and without its shortcuts. The rule without them compares every access with
what is remembered of its location. The two cannot be told apart on a location until its first
race.
-/

namespace RaceWatch

open VectorClock

variable {K : Nat}

/-! ### The rule without the shortcuts -/

/-- A way to check an access against an epoch history. -/
abbrev EpochCheck (K : Nat) : Type :=
  EpochHistory K → ThreadState K → Access → Except (Failure Fatal) (Finding (EpochHistory K) K)

/-- The check without the shortcuts. -/
def EpochHistory.checkInFull : EpochCheck K := fun h t access =>
  (match access.kind with
    | .read => h.checkNewRead t access.address
    | .write => h.checkNewWrite t access.address).mapError .error

/-- Check an access in the given way, report its races and remember it. -/
def Entry.checkBy (check : EpochCheck K) (config : Config) (entry : Entry .epoch K)
    (t : ThreadState K) (access : Access) :
    Except (Failure Fatal) (CheckedAccess .epoch K) := do
  let found ← check entry.history t access
  let events := eventsOf found access.address
  return {
    entry := entry.found config access.address found
    thread := found.thread
    counted := (entry.races.countedEach config events).foldr (· + ·) 0
    notes := entry.races.notesEach config events ++ [found.note] }

theorem Entry.checkBy_check (config : Config) (entry : Entry .epoch K) (t : ThreadState K)
    (access : Access) :
    entry.checkBy EpochHistory.check config t access = entry.check config t access := rfl

namespace Detector

/-- An access that is checked in the given way. -/
def accessBy (check : EpochCheck K) (d : Detector .epoch K) (t : Handle) (a : Access) :
    Reply (Detector .epoch K) Unit :=
  match d.registry.lookup t with
  | .error e => .fail d e []
  | .ok s =>
      let entry := d.shadow.getD a.address (.neutral a.address)
      let notes := d.shadow.noteIfNew a.address (.monitoredOnAccess a.address)
      let d := { d with shadow := d.shadow.monitor a.address (.neutral a.address) }
      match s.ensureAlive with
      | .error e => .fail d e notes
      | .ok () => match entry.checkBy check d.config s a with
        | .error f => .halt d notes f
        | .ok checked =>
            .done
              { d with
                registry := d.registry.put checked.thread
                shadow := d.shadow.put a.address checked.entry
                totalRaces := d.totalRaces + checked.counted }
              () (notes ++ checked.notes)

/-- Tell a detector that checks in the given way of one operation. -/
def stepBy (check : EpochCheck K) (d : Detector .epoch K) (op : Op Handle) :
    Reply (Detector .epoch K) Value :=
  match op with
  | .access t a => (d.accessBy check t a).mapResult fun () => .unit
  | op => d.step op

/-- A detector that checks in the given way after some operations. -/
def runBy (check : EpochCheck K) (d : Detector .epoch K) (ops : List (Op Handle)) :
    Detector .epoch K :=
  ops.foldl (fun d op => (d.stepBy check op).state) d

theorem accessBy_check (d : Detector .epoch K) (t : Handle) (a : Access) :
    d.accessBy EpochHistory.check t a = d.access t a := by
  rw [accessBy, access]
  cases d.registry.lookup t with
  | error e => rfl
  | ok s =>
    dsimp only
    cases s.ensureAlive with
    | error e => rfl
    | ok =>
      dsimp only
      rw [Entry.checkBy_check]
      cases (d.shadow.getD a.address (.neutral a.address)).check d.config s a <;> rfl

theorem stepBy_check (d : Detector .epoch K) (op : Op Handle) :
    d.stepBy EpochHistory.check op = d.step op := by
  cases op with
  | access t a => rw [stepBy, accessBy_check, step]
  | start | fork | join | exit | acquire | release | forgetLock | init | forget => rfl

theorem runBy_check (d : Detector .epoch K) (ops : List (Op Handle)) :
    d.runBy EpochHistory.check ops = d.run ops := by
  simp only [runBy, run, stepBy_check]

theorem stepBy_of_ne_access (check : EpochCheck K) (d : Detector .epoch K) {op : Op Handle}
    (hop : ∀ t a, op ≠ .access t a) : d.stepBy check op = d.step op := by
  cases op with
  | access t a => exact absurd rfl (hop t a)
  | start | fork | join | exit | acquire | release | forgetLock | init | forget => rfl

end Detector

namespace EpochHistory

variable {h : EpochHistory K} {s : ThreadState K} {t : Nat} {a : Access}

theorem check_of_not_repeats (hr : ¬ h.Repeats s a.kind) : h.check s a = h.checkInFull s a := by
  obtain ⟨x, kind⟩ := a
  cases kind with
  | read =>
    have hr : h.read ≠ s.epoch := hr
    rw [check, checkRead, if_neg hr, checkInFull]
  | write =>
    have hr : h.write ≠ s.epoch := hr
    rw [check, checkWrite, if_neg hr, checkInFull]

/-- Without the shortcut, an access in the epoch of the last one of its kind goes through as
well. If what the shortcut leaves out is known to the thread, it finds no race and changes
nothing. -/
theorem InRange.checkInFull_of_repeats (hh : h.InRange) (hs : s.Sound t) (hK : K ≤ maxThread)
    (hr : h.Repeats s a.kind) :
    ∃ f, h.checkInFull s a = .ok f ∧ f.history.InRange ∧ f.thread = s ∧
      (h.Clear s.clock a.kind → f.history = h ∧ f.races = []) := by
  obtain ⟨x, kind⟩ := a
  have hown : s.epoch.KnownTo s.clock := hs.knownTo_epoch hK
  have hthread : s.epoch.thread ≠ noThread := hs.thread_epoch hK ▸ hs.fits.1
  cases kind with
  | read =>
    have hr : h.read = s.epoch := hr
    have hshared : h.read.isShared = false := Epoch.isShared_eq_false (hr ▸ hthread)
    have hsame : { h with read := s.epoch } = h := by rw [← hr]
    simp only [checkInFull, checkNewRead, raceWith_eq_unknown hh.write_le, hshared,
      Epoch.happenedBefore_eq hh.read_le, hr ▸ hown, bind, Except.bind, Bool.false_eq_true,
      if_false, decide_true, if_true, hsame]
    refine ⟨_, rfl, hh, rfl, fun hclear => ⟨rfl, if_pos hclear⟩⟩
  | write =>
    have hr : h.write = s.epoch := hr
    have hww : unknown .writeWrite h.write s.clock = [] := if_pos (hr ▸ hown)
    have hepoch : s.epoch.thread ≤ K := hr ▸ hh.write_le
    simp only [checkInFull, checkNewWrite, raceWith_eq_unknown hh.write_le, hww,
      raceWith_eq_unknown hh.read_le, bind, Except.bind, List.nil_append]
    cases hshared : h.read.isShared with
    | true =>
      simp only [if_true]
      refine ⟨_, rfl, ⟨hepoch, Epoch.thread_empty.le.trans (Nat.zero_le _)⟩, rfl,
        fun hclear => absurd hclear.1 (by simp [hshared])⟩
    | false =>
      have hsame : { h with write := s.epoch } = h := by rw [← hr]
      simp only [Bool.false_eq_true, if_false, hsame]
      exact ⟨_, rfl, hh, rfl, fun hclear => ⟨rfl, if_pos hclear.2⟩⟩

/-- Without the shortcuts, checks still go through. -/
theorem InRange.checkInFull_total (hh : h.InRange) (hs : s.Sound t) (hK : K ≤ maxThread)
    (a : Access) : ∃ f, h.checkInFull s a = .ok f ∧ f.history.InRange ∧ f.thread = s := by
  by_cases hr : h.Repeats s a.kind
  · obtain ⟨f, hf, hrange, hthread, -⟩ := hh.checkInFull_of_repeats hs hK hr
    exact ⟨f, hf, hrange, hthread⟩
  · obtain ⟨note, hf⟩ := hh.check_eq hs.fits_id a
    exact ⟨_, check_of_not_repeats hr ▸ hf, (hh.outcome hs hK hf).1, rfl⟩

end EpochHistory

/-! ### With and without the shortcuts -/

namespace Entry

variable {entry entry' : Entry .epoch K} {config : Config} {s : ThreadState K} {t : Nat}
  {a : Access} {check : EpochCheck K} {f : Finding (EpochHistory K) K}

theorem checkBy_of_ok (config : Config) (hf : check entry.history s a = .ok f) :
    ∃ checked, entry.checkBy check config s a = .ok checked ∧
      checked.entry = entry.found config a.address f ∧ checked.thread = f.thread ∧
      (f.races = [] → checked.counted = 0) := by
  rw [checkBy, hf]
  refine ⟨_, rfl, rfl, rfl, fun hraces => ?_⟩
  simp only [eventsOf, hraces]
  rfl

/-- The check of an entry that passed its shortcut counts nothing and leaves the entry as it
is, if what the shortcut leaves out is known. -/
theorem checkBy_of_repeats (config : Config) (hh : EpochHistory.InRange entry.history)
    (hs : s.Sound t) (hK : K ≤ maxThread) (hr : EpochHistory.Repeats entry.history s a.kind)
    (hclear : EpochHistory.Clear entry.history s.clock a.kind) :
    ∃ checked, entry.checkBy EpochHistory.checkInFull config s a = .ok checked ∧
      checked.entry = entry ∧ checked.thread = s ∧ checked.counted = 0 := by
  obtain ⟨f, hf, -, hthread, hsame⟩ := hh.checkInFull_of_repeats hs hK hr
  obtain ⟨hhistory, hraces⟩ := hsame hclear
  obtain ⟨checked, hchecked, hentry, hthread', hcounted⟩ := checkBy_of_ok config hf
  exact ⟨checked, hchecked, hentry.trans (found_of_races_eq_nil config hhistory hraces _),
    hthread'.trans hthread, hcounted hraces⟩

/-- An entry that has not raced is left the same with and without the shortcuts, and one that
has raced has raced afterwards. -/
theorem checkBy_beside (config : Config) (hs : s.Sound t) (hK : K ≤ maxThread)
    (hh : EpochHistory.InRange entry.history) (hh' : EpochHistory.InRange entry'.history)
    (hentry : entry' = entry ∨ entry.races.count ≠ 0 ∧ entry'.races.count ≠ 0)
    (hclear : entry.races.count = 0 → EpochHistory.Repeats entry.history s a.kind →
      EpochHistory.Clear entry.history s.clock a.kind) :
    ∃ checked checked', entry.check config s a = .ok checked ∧
      entry'.checkBy EpochHistory.checkInFull config s a = .ok checked' ∧
      checked.thread = s ∧ checked'.thread = s ∧
      EpochHistory.InRange checked'.entry.history ∧
      (checked'.entry = checked.entry ∨ entry.races.count ≠ 0 ∧
        checked.entry.races.count ≠ 0 ∧ checked'.entry.races.count ≠ 0) := by
  obtain ⟨note, hf⟩ := hh.check_eq hs.fits_id a
  obtain ⟨f', hf', hrange', hthread'⟩ := hh'.checkInFull_total hs hK a
  obtain ⟨checked, hchecked, hfound, hthread, -⟩ := checkBy_of_ok config hf
  obtain ⟨checked', hchecked', hfound', hthread'', -⟩ := checkBy_of_ok config hf'
  refine ⟨checked, checked', hchecked, hchecked', hthread, hthread''.trans hthread',
    hfound' ▸ hrange', ?_⟩
  rw [hfound, hfound']
  by_cases hraced : entry.races.count ≠ 0 ∧ entry'.races.count ≠ 0
  · right
    exact ⟨hraced.1, fun hzero => hraced.1 (Chronicle.count_found_eq_zero.mp hzero).1,
      fun hzero => hraced.2 (Chronicle.count_found_eq_zero.mp hzero).1⟩
  · left
    obtain rfl := hentry.resolve_right hraced
    have hzero : entry'.races.count = 0 := by simpa using hraced
    by_cases hr : EpochHistory.Repeats entry'.history s a.kind
    · obtain ⟨note', hsame⟩ := EpochHistory.check_of_repeats hr
      obtain ⟨f'', hf'', -, hthread'', hcalm⟩ := hh.checkInFull_of_repeats hs hK hr
      obtain rfl := Except.ok.inj (hf''.symm.trans hf')
      obtain ⟨hhistory, hraces⟩ := hcalm (hclear hzero hr)
      have heq := Except.ok.inj (hf.symm.trans hsame)
      rw [heq]
      exact (found_of_races_eq_nil config hhistory hraces _).trans
        (found_of_races_eq_nil config rfl rfl _).symm
    · rw [EpochHistory.check_of_not_repeats hr, hf'] at hf
      rw [Except.ok.inj hf]

end Entry

namespace Detector

variable {d d' : Detector .epoch K} {config : Config} {tag : Nat} {op : Op Handle}

/-- A detector beside one without the shortcuts. They differ at most on certain locations, and
on these both of them have counted a race. -/
structure Abreast (raced : Address → Prop) (d d' : Detector .epoch K) : Prop where
  config_eq : d'.config = d.config
  registry_eq : d'.registry = d.registry
  locks_eq : d'.locks = d.locks
  inRange : ∀ x, EpochHistory.InRange (d'.entryOf x).history
  entry : ∀ x, d'.entryAt? x = d.entryAt? x ∨ raced x ∧ d.raceCount x ≠ 0 ∧ d'.raceCount x ≠ 0

theorem isSome_entryAt?_of_raceCount {rule : Rule} {d : Detector rule K} {x : Address}
    (h : d.raceCount x ≠ 0) : (d.entryAt? x).isSome = true := by
  rw [raceCount, races?] at h
  cases hx : d.entryAt? x with
  | none => simp [hx] at h
  | some entry => rfl

theorem entryOf_eq {rule : Rule} (d : Detector rule K) (x : Address) :
    d.entryOf x = (d.entryAt? x).getD (.neutral x) := rfl

section

variable {raced : Address → Prop}

theorem Abreast.isSome_entryAt? (h : Abreast raced d d') (x : Address) :
    (d'.entryAt? x).isSome = (d.entryAt? x).isSome := by
  rcases h.entry x with heq | ⟨-, hpos, hpos'⟩
  · rw [heq]
  · rw [isSome_entryAt?_of_raceCount hpos, isSome_entryAt?_of_raceCount hpos']

theorem Abreast.raceCount_eq_zero_iff (h : Abreast raced d d') (x : Address) :
    d'.raceCount x = 0 ↔ d.raceCount x = 0 := by
  rcases h.entry x with heq | ⟨-, hpos, hpos'⟩
  · rw [raceCount, races?, heq, raceCount, races?]
  · simp [hpos, hpos']

theorem Abreast.entryAt?_eq (h : Abreast raced d d') {x : Address} (hx : ¬ raced x) :
    d'.entryAt? x = d.entryAt? x :=
  (h.entry x).resolve_right fun hraced => hx hraced.1

/-- The locations on which they differ have raced. -/
theorem Abreast.now (h : Abreast raced d d') : Abreast (d.raceCount · ≠ 0) d d' :=
  { h with entry := fun x => (h.entry x).imp_right fun hraced => ⟨hraced.2.1, hraced.2⟩ }

theorem Abreast.entryOf_cases (h : Abreast raced d d') (x : Address) :
    d'.entryOf x = d.entryOf x ∨
      (d.entryOf x).races.count ≠ 0 ∧ (d'.entryOf x).races.count ≠ 0 := by
  rw [← raceCount_eq, ← raceCount_eq]
  refine (h.entry x).imp (fun heq => ?_) And.right
  rw [entryOf_eq, entryOf_eq, heq]

/-- What an operation that is not an access does to an entry. -/
theorem entryAt?_step {rule : Rule} (d : Detector rule K) (hop : ∀ t a, op ≠ .access t a)
    (x : Address) : (d.step op).state.entryAt? x =
      if op = .init x then some (d.entryOf x) else if op = .forget x then none
      else d.entryAt? x := by
  by_cases hx : op.location? = some x
  · cases op with
    | access t a => exact absurd rfl (hop t a)
    | init y =>
      obtain rfl : y = x := by simpa [Op.location?] using hx
      rw [if_pos rfl]
      exact (ShadowMemory.get?_monitor ..).trans (if_pos rfl)
    | forget y =>
      obtain rfl : y = x := by simpa [Op.location?] using hx
      rw [if_neg (by simp), if_pos rfl]
      exact (ShadowMemory.get?_forget ..).trans (if_pos rfl)
    | start | fork | join | exit | acquire | release | forgetLock => simp [Op.location?] at hx
  · rw [d.entryAt?_step_of_ne hx, if_neg, if_neg]
    · rintro rfl
      exact hx rfl
    · rintro rfl
      exact hx rfl

/-- What is handed back of an operation that is not an access. -/
theorem Abreast.result_eq (h : Abreast raced d d') (hop : ∀ t a, op ≠ .access t a) :
    (d'.step op).result = (d.step op).result := by
  cases hx : op.location? with
  | none =>
    -- All handles are handed out under the same tag.
    have hself : Beside d.registry.tag d d := ⟨rfl, rfl⟩
    have hbeside : Beside d.registry.tag d d' := ⟨h.registry_eq, h.locks_eq⟩
    exact ((hbeside.step rfl hop).2 hx).trans ((hself.step rfl hop).2 hx).symm
  | some x =>
    have hkept : (d'.shadow.get? x).isSome = (d.shadow.get? x).isSome := h.isSome_entryAt? x
    cases op with
    | access t a => exact absurd rfl (hop t a)
    | init y =>
      obtain rfl : y = x := by simpa [Op.location?] using hx
      simp only [step, init, Reply.result_mapResult, Reply.result_mapState,
        ShadowMemory.result_init, hkept]
    | forget y =>
      obtain rfl : y = x := by simpa [Op.location?] using hx
      simp only [step, forget, Reply.result_mapResult, Reply.result_mapState,
        ShadowMemory.result_forget, hkept]
    | start | fork | join | exit | acquire | release | forgetLock => simp [Op.location?] at hx

/-- An operation that is not an access. -/
theorem Abreast.step (h : Abreast raced d d') (hop : ∀ t a, op ≠ .access t a) :
    Abreast (d.raceCount · ≠ 0) (d.step op).state (d'.step op).state := by
  have hbeside : Beside d.registry.tag d d' := ⟨h.registry_eq, h.locks_eq⟩
  have hself : Beside d.registry.tag d d := ⟨rfl, rfl⟩
  have hstep := (hbeside.step rfl hop).1
  refine ⟨?_, ?_, hstep.locks_eq, fun x => ?_, fun x => ?_⟩
  · rw [config_step, config_step, h.config_eq]
  · exact hstep.registry_eq.trans (hself.step rfl hop).1.registry_eq.symm
  · rw [entryOf_step _ hop]
    split
    · exact Chronicle.epochTrace_neutral (H := []).inRange
    · exact h.inRange x
  · simp only [raceCount_eq, entryAt?_step _ hop, entryOf_step _ hop]
    by_cases hforget : op = .forget x
    · simp [hforget]
    · rw [if_neg hforget, if_neg hforget, if_neg hforget, if_neg hforget, ← raceCount_eq,
        ← raceCount_eq]
      refine (h.entry x).imp (fun heq => ?_) fun hraced => ⟨hraced.2.1, hraced.2⟩
      rw [entryOf_eq, entryOf_eq, heq]

/-- An operation that writes one entry. -/
theorem Abreast.put (h : Abreast raced d d') {x : Address} {entry entry' : Entry .epoch K}
    {registry registry' : Registry K} {shadow shadow' : ShadowMemory (Entry .epoch K)}
    {total total' : Nat} (hregistry : registry' = registry)
    (hshadow : ∀ y, shadow.get? y = if x = y then some entry else d.entryAt? y)
    (hshadow' : ∀ y, shadow'.get? y = if x = y then some entry' else d'.entryAt? y)
    (hrange : EpochHistory.InRange entry'.history)
    (hentry : entry' = entry ∨
      d.raceCount x ≠ 0 ∧ entry.races.count ≠ 0 ∧ entry'.races.count ≠ 0) :
    Abreast (d.raceCount · ≠ 0) { d with registry, shadow, totalRaces := total }
      { d' with registry := registry', shadow := shadow', totalRaces := total' } := by
  refine ⟨h.config_eq, hregistry, h.locks_eq, fun y => ?_, fun y => ?_⟩
  · rw [entryOf_eq, entryAt?, hshadow']
    split
    · exact hrange
    · exact h.inRange y
  · by_cases hy : x = y
    · subst hy
      simpa [raceCount, races?, entryAt?, hshadow, hshadow'] using hentry
    · simp only [raceCount, races?, entryAt?, hshadow, hshadow', if_neg hy]
      exact h.now.entry y

/-- An access, if without races the accessing thread knows of what the shortcut leaves out. -/
theorem Abreast.access (h : Abreast raced d d') (hd : d.Sound) {t : Handle} {a : Access}
    (hrange : EpochHistory.InRange (d.entryOf a.address).history)
    (hclear : ∀ s, d.state? t.thread = some s → d.raceCount a.address = 0 →
      EpochHistory.Repeats (d.entryOf a.address).history s a.kind →
      EpochHistory.Clear (d.entryOf a.address).history s.clock a.kind) :
    (d'.accessBy EpochHistory.checkInFull t a).result = (d.access t a).result ∧
      Abreast (d.raceCount · ≠ 0) (d.access t a).state
        (d'.accessBy EpochHistory.checkInFull t a).state := by
  have hentry := h.entryOf_cases a.address
  have hmonitor (d : Detector .epoch K) (y : Address) :=
    d.shadow.get?_monitor a.address y (.neutral a.address)
  have hlookup : d'.registry.lookup t = d.registry.lookup t := by rw [h.registry_eq]
  cases hl : d.registry.lookup t with
  | error e =>
    simp only [accessBy, Detector.access, hlookup, hl, Reply.result_fail, Reply.state_fail]
    exact ⟨trivial, h.now⟩
  | ok s =>
    have hs := Registry.state?_of_lookup hl
    have hsound := hd.threads _ s hs
    cases halive : s.ensureAlive with
    | error e =>
      simp only [accessBy, Detector.access, hlookup, hl, halive, Reply.result_fail,
        Reply.state_fail]
      exact ⟨trivial, h.put h.registry_eq (hmonitor d) (hmonitor d') (h.inRange a.address)
        (hentry.imp_right fun hraced => ⟨raceCount_eq d _ ▸ hraced.1, hraced⟩)⟩
    | ok =>
      obtain ⟨checked, checked', hc, hc', hthread, hthread', hrange', hboth⟩ :=
        Entry.checkBy_beside (a := a) d.config hsound hd.capacity hrange (h.inRange a.address)
          hentry fun hzero => hclear s hs (raceCount_eq d _ ▸ hzero)
      rw [entryOf] at hc hc'
      rw [← h.config_eq] at hc'
      simp only [accessBy, Detector.access, hlookup, hl, halive, hc, hc', hthread, hthread',
        Reply.result_done, Reply.state_done]
      have hput : d'.registry.put s = d.registry.put s := by rw [h.registry_eq]
      refine ⟨trivial, h.put (x := a.address) hput (fun y => ?_) (fun y => ?_) hrange'
        (raceCount_eq d _ ▸ hboth)⟩
      · rw [ShadowMemory.get?_put]
        split
        · rfl
        · next hne => exact (hmonitor d y).trans (if_neg hne)
      · rw [ShadowMemory.get?_put]
        split
        · rfl
        · next hne => exact (hmonitor d' y).trans (if_neg hne)

end

theorem abreast_self (hrange : ∀ x, EpochHistory.InRange (d.entryOf x).history) :
    Abreast (d.raceCount · ≠ 0) d d :=
  ⟨rfl, rfl, rfl, hrange, fun _ => .inl rfl⟩

/-- One operation of a run without overflows. -/
theorem Abreast.stepBy {raced : Address → Prop} (h : create .epoch K config tag = .ok d)
    (ops : List (Op Handle)) (ho : (d.chronicle ops).NoOverflow) {n : Nat}
    (habreast : Abreast raced (d.after ops n) d') (op : Op Handle) :
    (d'.stepBy EpochHistory.checkInFull op).result = ((d.after ops n).step op).result ∧
      Abreast ((d.after ops n).raceCount · ≠ 0) ((d.after ops n).step op).state
        (d'.stepBy EpochHistory.checkInFull op).state := by
  obtain ⟨t, a, rfl⟩ | hne := op.access_or_ne
  · obtain ⟨hresult, hstate⟩ := habreast.access (sound_after h ops n)
      (inRange_entryOf h ops n a.address) fun s hs hzero => clear_of_repeats h ops ho hzero hs
    exact ⟨congrArg (Except.map _) hresult, hstate⟩
  · rw [stepBy_of_ne_access _ _ hne]
    exact ⟨habreast.result_eq hne, habreast.step hne⟩

/-- The detector without the shortcuts stays abreast in a run without overflows. -/
theorem abreast_runBy (h : create .epoch K config tag = .ok d) (ops : List (Op Handle))
    (ho : (d.chronicle ops).NoOverflow) (n : Nat) :
    Abreast ((d.after ops n).raceCount · ≠ 0) (d.after ops n)
      (d.runBy EpochHistory.checkInFull (ops.take n)) := by
  induction n with
  | zero => exact abreast_self fun x => inRange_entryOf h ops 0 x
  | succ n ih =>
    cases hop : ops[n]? with
    | none =>
      rw [after_succ_of_none d hop, List.take_add_one, hop, Option.toList_none, List.append_nil]
      exact ih
    | some op =>
      rw [after_succ d hop, List.take_add_one, hop, Option.toList_some, runBy, List.foldl_concat]
      exact (ih.stepBy h ops ho op).2.now

/-- The shortcuts of the epoch rule cannot be told until the first race of a location. In a run
without overflows, all operations hand back the same with and without them, races have been
counted on the same locations, and as long as none has been counted on a location, its entry is
the same, also after the access that counts the first race. Where no race has been counted, the
check that a shortcut saves would have counted none and left the entry as it is. -/
theorem shortcuts_unobservable (h : create .epoch K config tag = .ok d) (ops : List (Op Handle))
    (ho : (d.chronicle ops).NoOverflow) :
    (∀ n x, (d.after ops n).raceCount x = 0 →
      (d.runBy EpochHistory.checkInFull (ops.take n)).entryAt? x = (d.after ops n).entryAt? x ∧
        (d.runBy EpochHistory.checkInFull (ops.take (n + 1))).entryAt? x =
          (d.after ops (n + 1)).entryAt? x) ∧
      (∀ n x, (d.runBy EpochHistory.checkInFull (ops.take n)).raceCount x = 0 ↔
        (d.after ops n).raceCount x = 0) ∧
      (∀ n op, ((d.runBy EpochHistory.checkInFull (ops.take n)).stepBy
        EpochHistory.checkInFull op).result = ((d.after ops n).step op).result) ∧
      ∀ n t a s, (d.after ops n).state? t = some s → (d.after ops n).raceCount a.address = 0 →
        EpochHistory.Repeats ((d.after ops n).entryOf a.address).history s a.kind →
          ∃ checked, ((d.after ops n).entryOf a.address).checkBy EpochHistory.checkInFull config s
              a = .ok checked ∧
            checked.entry = (d.after ops n).entryOf a.address ∧ checked.thread = s ∧
              checked.counted = 0 := by
  have habreast := abreast_runBy h ops ho
  refine ⟨fun n x hzero => ?_, fun n x => (habreast n).raceCount_eq_zero_iff x,
    fun n op => ((habreast n).stepBy h ops ho op).1, fun n t a s hs hzero hr => ?_⟩
  · have hnow := (habreast n).entryAt?_eq (x := x) (by simpa using hzero)
    refine ⟨hnow, ?_⟩
    cases hop : ops[n]? with
    | none =>
      rwa [after_succ_of_none d hop, List.take_add_one, hop, Option.toList_none, List.append_nil]
    | some op =>
      rw [after_succ d hop, List.take_add_one, hop, Option.toList_some, runBy, List.foldl_concat]
      exact ((habreast n).stepBy h ops ho op).2.entryAt?_eq (by simpa using hzero)
  · exact Entry.checkBy_of_repeats config (inRange_entryOf h ops n a.address)
      ((sound_after h ops n).threads t s hs) (sound_create h).capacity hr
      (clear_of_repeats h ops ho hzero hs hr)

/-- The second read takes the shortcut, and the write after it races. -/
theorem shortcut_readAgain :
    (∃ checked, (((forThree .epoch).after readAgain 3).entryOf 7).checkBy
        EpochHistory.checkInFull .default (.first 1) ⟨7, .read⟩ = .ok checked ∧
      checked.entry = ((forThree .epoch).after readAgain 3).entryOf 7 ∧
        checked.thread = .first 1 ∧ checked.counted = 0) ∧
    ((forThree .epoch).after readAgain 5).raceCount 7 = 1 ∧
    ((forThree .epoch).runBy EpochHistory.checkInFull (readAgain.take 5)).entryAt? 7 =
      ((forThree .epoch).after readAgain 5).entryAt? 7 := by
  obtain ⟨hentry, -, -, hslow⟩ :=
    shortcuts_unobservable (create_forThree .epoch) readAgain (by decide)
  have hread : EpochHistory.read (((forThree .epoch).after readAgain 3).entryOf 7).history =
      (.first 1 : ThreadState 3).epoch := by
    decide
  exact ⟨hslow 3 1 ⟨7, .read⟩ _ (by decide) (by decide) hread, by decide,
    (hentry 4 7 (by decide)).2⟩

/-- After the race the shortcut of the last read can be told. -/
example : ((forThree .epoch).run readAgain).raceCount 7 = 1 ∧
    ((forThree .epoch).runBy EpochHistory.checkInFull readAgain).raceCount 7 = 2 := by
  decide

end Detector

end RaceWatch
