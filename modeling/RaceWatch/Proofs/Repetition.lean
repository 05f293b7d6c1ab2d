import RaceWatch.Proofs.EpochCheck
import RaceWatch.Proofs.Flagged
import RaceWatch.Proofs.Reports
import RaceWatch.Proofs.Retention

/-!
An access made twice under the epoch rule, with nothing in between. The first time leaves the
history in a form that the second time does not change any more. Most accesses are then in the
epoch of the last one of their kind and are let pass. A read while the reads are shared is not:
it is compared with the last write each time, and where every race counts, a race with that
write counts each time.
-/

namespace RaceWatch

open VectorClock

namespace VectorClock

theorem mark_mark {K : Nat} (c : VectorClock K) (t value : Nat) :
    (c.mark t value).mark t value = c.mark t value := by
  rw [mark, mark]
  cases slot? K t with
  | none => rfl
  | some i =>
    refine VectorClock.ext fun j => ?_
    simp only [Option.elim_some, coords_put]
    split <;> rfl

end VectorClock

namespace EpochHistory

variable {K t : Nat} {h : EpochHistory K} {s : ThreadState K} {kind : AccessKind}

/-! ### The history the second time -/

/-- A read is remembered in the read epoch or in the read clock. -/
theorem read_readBy (h : EpochHistory K) (s : ThreadState K) :
    (h.readBy s).read = s.epoch ∨ (h.readBy s).read = .shared := by
  rw [readBy]
  by_cases hsame : h.read = s.epoch
  · rw [if_pos hsame]
    exact .inl hsame
  rw [if_neg hsame]
  by_cases hshared : h.read.isShared = true
  · rw [if_pos hshared]
    exact .inr (Epoch.isShared_iff.mp hshared)
  rw [if_neg hshared]
  by_cases hknown : h.read.KnownTo s.clock
  · rw [if_pos hknown]
    exact .inl rfl
  · rw [if_neg hknown]
    exact .inr rfl

theorem write_readBy (h : EpochHistory K) (s : ThreadState K) : (h.readBy s).write = h.write := by
  rw [readBy]
  repeat' split
  all_goals rfl

theorem write_writtenBy (h : EpochHistory K) (s : ThreadState K) :
    (h.writtenBy s).write = s.epoch := by
  rw [writtenBy]
  by_cases hsame : h.write = s.epoch
  · rw [if_pos hsame]
    exact hsame
  · rw [if_neg hsame]
    split <;> rfl

theorem readBy_of_shared (hs : s.epoch ≠ .shared) (hshared : h.read = .shared) :
    h.readBy s = { h with readClock := h.readClock.mark s.id s.epoch.clock } := by
  rw [readBy, if_neg (hshared ▸ Ne.symm hs), if_pos (Epoch.isShared_iff.mpr hshared)]

/-- While the reads are shared, the read clock holds the read from the first time on. -/
theorem readBy_readBy (hs : s.epoch ≠ .shared) : (h.readBy s).readBy s = h.readBy s := by
  by_cases hsame : (h.readBy s).read = s.epoch
  · rw [readBy, if_pos hsame]
  have hshared := (h.read_readBy s).resolve_left hsame
  rw [readBy_of_shared hs hshared]
  suffices hmark : (h.readBy s).readClock.mark s.id s.epoch.clock = (h.readBy s).readClock by
    rw [hmark]
  rw [readBy] at hsame ⊢
  by_cases hread : h.read = s.epoch
  · rw [if_pos hread] at hsame
    exact absurd hread hsame
  rw [if_neg hread] at hsame ⊢
  by_cases hbefore : h.read.isShared = true
  · rw [if_pos hbefore]
    exact mark_mark _ _ _
  rw [if_neg hbefore] at hsame ⊢
  by_cases hknown : h.read.KnownTo s.clock
  · rw [if_pos hknown] at hsame
    exact absurd rfl hsame
  · rw [if_neg hknown]
    exact mark_mark _ _ _

theorem accessedBy_accessedBy (hs : s.epoch ≠ .shared) (kind : AccessKind) :
    (h.accessedBy s kind).accessedBy s kind = h.accessedBy s kind := by
  cases kind with
  | read => exact readBy_readBy hs
  | write => exact if_pos (h.write_writtenBy s)

/-! ### The races the second time -/

/-- Whether an access races with the last write each time it is made: a read while the reads
are shared, by a thread that does not know of that write. -/
def Recounts (h : EpochHistory K) (s : ThreadState K) (kind : AccessKind) : Prop :=
  kind = .read ∧ h.read = .shared ∧ ¬ h.write.KnownTo s.clock

/-- What an access finds when it is made again. -/
theorem races_accessedBy (h : EpochHistory K) (kind : AccessKind) (hs : s.epoch ≠ .shared) :
    ((h.accessedBy s kind).Recounts s kind ∧
        (h.accessedBy s kind).writeRaces s kind ++ (h.accessedBy s kind).readRaces s kind =
          [(.writeRead, (h.accessedBy s kind).write.thread)]) ∨
      ¬ (h.accessedBy s kind).Recounts s kind ∧
        (h.accessedBy s kind).writeRaces s kind ++ (h.accessedBy s kind).readRaces s kind = [] := by
  cases kind with
  | write =>
    have hsame := h.write_writtenBy s
    simp [accessedBy, writeRaces, readRaces, hsame, Recounts]
  | read =>
    rw [accessedBy, writeRaces, readRaces, List.append_nil]
    rcases h.read_readBy s with hsame | hshared
    · rw [if_pos hsame]
      exact .inr ⟨fun hre => hs (hsame.symm.trans hre.2.1), rfl⟩
    · rw [if_neg fun hsame => hs (hsame.symm.trans hshared), unknown]
      by_cases hknown : (h.readBy s).write.KnownTo s.clock
      · rw [if_pos hknown]
        exact .inr ⟨fun hre => hre.2.2 hknown, rfl⟩
      · rw [if_neg hknown]
        exact .inl ⟨⟨rfl, hshared, hknown⟩, rfl⟩

/-- An access that races with the last write each time has done so the first time. -/
theorem Recounts.writeRaces_eq (hs : s.epoch ≠ .shared)
    (hre : (h.accessedBy s kind).Recounts s kind) :
    h.writeRaces s kind ++ h.readRaces s kind =
      [(.writeRead, (h.accessedBy s kind).write.thread)] := by
  obtain ⟨rfl, hshared, hknown⟩ := hre
  have hwrite : (h.accessedBy s .read).write = h.write := h.write_readBy s
  have hne : h.read ≠ s.epoch := by
    intro hsame
    have hread : (h.accessedBy s .read).read = s.epoch := by
      rw [accessedBy, readBy, if_pos hsame, hsame]
    exact hs (hread.symm.trans hshared)
  rw [hwrite] at hknown ⊢
  rw [writeRaces, readRaces, if_neg hne, unknown, if_neg hknown, List.append_nil]

end EpochHistory

namespace Entry

variable {K t : Nat} {entry : Entry .epoch K} {config : Config} {s : ThreadState K} {a : Access}

/-- The check of an access that is made again, right after it passed its check. -/
theorem check_again (hh : EpochHistory.InRange entry.history) (hs : s.Sound t) (hK : K ≤ maxThread)
    (hevery : config.reporting = .every) {checked : CheckedAccess .epoch K}
    (hc : entry.check config s a = .ok checked) :
    checked.thread = s ∧ ∃ checked', checked.entry.check config s a = .ok checked' ∧
      checked'.thread = s ∧
      (¬ EpochHistory.Recounts checked.entry.history s a.kind →
        checked'.entry = checked.entry ∧ checked'.counted = 0) ∧
      (EpochHistory.Recounts checked.entry.history s a.kind →
        checked.entry.races.count = entry.races.count + 1 ∧ checked'.counted = 1 ∧
          checked'.entry = { checked.entry with
            races := checked.entry.races.report config ⟨.writeRead, a.address, t,
              (EpochHistory.write checked.entry.history).thread⟩ }) := by
  have hshared : s.epoch ≠ .shared := by
    intro hepoch
    have hthread := hs.thread_epoch hK
    rw [hepoch, Epoch.thread_shared] at hthread
    exact hs.fits.1 hthread.symm
  obtain ⟨f, hf, hthread, hentry⟩ := check_eq_ok hc
  obtain ⟨hhistory, hself, hraces⟩ := hh.found_eq hs.fits_id hf
  have hhistory' : checked.entry.history = EpochHistory.accessedBy entry.history s a.kind := by
    rw [hentry]
    exact hhistory
  have hrange : EpochHistory.InRange checked.entry.history := by
    rw [hentry]
    exact (hh.outcome hs hK hf).1
  obtain ⟨f', hf'⟩ : ∃ f', Rule.check .epoch checked.entry.history s a = .ok f' :=
    ⟨_, (hrange.check_eq hs.fits_id a).choose_spec⟩
  obtain ⟨checked', hc', hentry', hthread'⟩ := check_of_ok hf' config
  have hcount := count_of_check hc'
  obtain ⟨hhistory₂, hself', hraces'⟩ := hrange.found_eq hs.fits_id hf'
  have hsame : f'.history = checked.entry.history := by
    rw [hhistory₂, hhistory']
    exact EpochHistory.accessedBy_accessedBy hshared a.kind
  have hagain := EpochHistory.races_accessedBy entry.history a.kind hshared
  rw [← hhistory', ← hraces'] at hagain
  refine ⟨hthread.trans hself, checked', hc', hthread'.trans hself', fun hnot => ?_, fun hre => ?_⟩
  · have hnil := (hagain.resolve_left fun hre => hnot hre.1).2
    have hentry' : checked'.entry = checked.entry :=
      hentry'.trans (found_of_races_eq_nil config hsame hnil _)
    refine ⟨hentry', ?_⟩
    rw [hentry'] at hcount
    omega
  · have hone := (hagain.resolve_right fun hnot => hnot.1 hre).2
    have hevents : eventsOf f' a.address =
        [⟨.writeRead, a.address, t, (EpochHistory.write checked.entry.history).thread⟩] := by
      rw [eventsOf, hone, hself', hs.id_eq]
      rfl
    have hentry' : checked'.entry = { checked.entry with
        races := checked.entry.races.report config ⟨.writeRead, a.address, t,
          (EpochHistory.write checked.entry.history).thread⟩ } := by
      rw [hentry', found_of_history_eq config hsame, hevents]
      rfl
    have hfirst : checked.entry.races.count = entry.races.count + 1 := by
      rw [hhistory'] at hre
      rw [hentry, found, eventsOf, hraces, hre.writeRaces_eq hshared]
      exact RaceRecord.count_report_of_every hevery _ _
    refine ⟨hfirst, ?_, hentry'⟩
    have hreport := RaceRecord.count_report_of_every hevery checked.entry.races
      ⟨.writeRead, a.address, t, (EpochHistory.write checked.entry.history).thread⟩
    rw [hentry'] at hcount
    dsimp only at hcount
    omega

end Entry

/-! ### An access that passes its check -/

/-- It makes no difference whether an address is monitored before its entry is put. -/
theorem ShadowMemory.put_monitor {ε : Type} (m : ShadowMemory ε) (x : Address) (neutral entry : ε) :
    (m.monitor x neutral).put x entry = m.put x entry := by
  refine ShadowMemory.ext fun y => ?_
  simp only [get?_put, get?_monitor]
  split <;> rfl

namespace Detector

variable {rule : Rule} {K : Nat}

/-- The detector after an access that passed its check. -/
def accepted (d : Detector rule K) (a : Access) (checked : CheckedAccess rule K) :
    Detector rule K :=
  { d with
    registry := d.registry.put checked.thread
    shadow := d.shadow.put a.address checked.entry
    totalRaces := d.totalRaces + checked.counted }

/-- An access succeeds exactly if its thread is alive and it passes its check. -/
theorem result_access_eq_ok {d : Detector rule K} {t : Handle} {a : Access} :
    (d.step (.access t a)).result = .ok .unit ↔ ∃ s checked, d.registry.lookup t = .ok s ∧
      s.ensureAlive = .ok () ∧ (d.entryOf a.address).check d.config s a = .ok checked := by
  have hentry : d.entryOf a.address = d.shadow.getD a.address (.neutral a.address) := rfl
  rw [step, Reply.result_mapResult, hentry]
  cases hl : d.registry.lookup t with
  | error e => simp [access, hl, Except.map]
  | ok s =>
    cases ha : s.ensureAlive with
    | error e => simp [access, hl, ha, Except.map]
    | ok =>
      cases hc : (d.shadow.getD a.address (.neutral a.address)).check d.config s a with
      | error f => simp [access, hl, ha, hc, Except.map]
      | ok checked => simp [access, hl, ha, hc, Except.map]

theorem state_access_of_check {d : Detector rule K} {t : Handle} {a : Access} {s : ThreadState K}
    {checked : CheckedAccess rule K} (hl : d.registry.lookup t = .ok s)
    (ha : s.ensureAlive = .ok ()) (hc : (d.entryOf a.address).check d.config s a = .ok checked) :
    (d.step (.access t a)).state = d.accepted a checked := by
  rw [entryOf] at hc
  simp only [step, access, hl, ha, hc, Reply.state_mapResult, Reply.state_done,
    ShadowMemory.put_monitor]
  rfl

theorem entryAt?_accepted (d : Detector rule K) (a : Access) (checked : CheckedAccess rule K)
    (x : Address) : (d.accepted a checked).entryAt? x =
      if a.address = x then some checked.entry else d.entryAt? x :=
  ShadowMemory.get?_put ..

section

variable {d : Detector rule K} {t : Handle} {a : Access} {s : ThreadState K}
  {checked : CheckedAccess rule K} (hl : d.registry.lookup t = .ok s) (hid : s.id = t.thread)
  (hthread : checked.thread = s)
include hl hid hthread

/-- An access that leaves its thread as it is leaves all threads as they are. -/
theorem put_thread : d.registry.put checked.thread = d.registry := by
  rw [hthread]
  exact Registry.put_self (Registry.state?_of_lookup hl) hid

/-- To accept what is there changes nothing. -/
theorem accepted_self (hentry : d.entryAt? a.address = some checked.entry)
    (hcounted : checked.counted = 0) : d.accepted a checked = d := by
  have hshadow : d.shadow.put a.address checked.entry = d.shadow := by
    refine ShadowMemory.ext fun x => (ShadowMemory.get?_put ..).trans ?_
    split
    · next hx => exact (hx ▸ hentry).symm
    · rfl
  rw [accepted, put_thread hl hid hthread, hshadow, hcounted]
  rfl

end

variable {d : Detector .epoch K} {config : Config} {tag : Nat}

/-- Where every race counts, an access made again counts at most the race with the last write,
and otherwise leaves the detector as it is. -/
theorem access_again (h : create .epoch K config tag = .ok d) (hevery : config.reporting = .every)
    (ops : List (Op Handle)) {t : Handle} {a : Access}
    (hok : ((d.run ops).step (.access t a)).result = .ok .unit) {d₁ : Detector .epoch K}
    (hd₁ : ((d.run ops).step (.access t a)).state = d₁) :
    ∃ s entry, d₁.state? t.thread = some s ∧ d₁.entryAt? a.address = some entry ∧
      (d₁.step (.access t a)).result = .ok .unit ∧
      (¬ EpochHistory.Recounts entry.history s a.kind → (d₁.step (.access t a)).state = d₁) ∧
      (EpochHistory.Recounts entry.history s a.kind →
        d₁.raceCount a.address = (d.run ops).raceCount a.address + 1 ∧
          (d₁.step (.access t a)).state = { d₁ with
            shadow := d₁.shadow.put a.address { entry with
              races := entry.races.report config
                ⟨.writeRead, a.address, t.thread, (EpochHistory.write entry.history).thread⟩ }
            totalRaces := d₁.totalRaces + 1 }) := by
  obtain ⟨s, checked, hl, ha, hc⟩ := result_access_eq_ok.mp hok
  have hsound := (sound_run h ops).threads _ _ (Registry.state?_of_lookup hl)
  have hconfig : (d.run ops).config = config := by
    rw [← after_length]
    exact config_after h ops ops.length
  have hrange : EpochHistory.InRange ((d.run ops).entryOf a.address).history := by
    rw [← after_length]
    exact (leaves_entryOf h ops a.address ops.length).epochTrace.inRange
  obtain ⟨hthread, checked', hc', hthread', hcalm, hrecounts⟩ :=
    Entry.check_again hrange hsound (sound_create h).capacity hevery (hconfig ▸ hc)
  -- The second time the thread is the same, and the entry is what the first time left.
  have hd : d₁ = (d.run ops).accepted a checked := hd₁ ▸ state_access_of_check hl ha hc
  have hregistry : d₁.registry = (d.run ops).registry :=
    hd ▸ put_thread hl hsound.id_eq hthread
  have hl' : d₁.registry.lookup t = .ok s := hregistry ▸ hl
  have hat : d₁.entryAt? a.address = some checked.entry := by
    rw [hd, entryAt?_accepted, if_pos rfl]
  have hconfig' : d₁.config = config := by rw [hd, ← hconfig]; rfl
  have hc₁ : (d₁.entryOf a.address).check d₁.config s a = .ok checked' := by
    rw [entryOf_of_entryAt? hat, hconfig', hc']
  have hstate := state_access_of_check hl' ha hc₁
  refine ⟨s, checked.entry, Registry.state?_of_lookup hl', hat,
    result_access_eq_ok.mpr ⟨s, checked', hl', ha, hc₁⟩, fun hnot => ?_, fun hre => ⟨?_, ?_⟩⟩
  · obtain ⟨hentry, hcounted⟩ := hcalm hnot
    exact hstate.trans (accepted_self hl' hsound.id_eq hthread' (hentry ▸ hat) hcounted)
  · rw [raceCount_eq, raceCount_eq, entryOf_of_entryAt? hat, (hrecounts hre).1]
  · obtain ⟨-, hcounted, hentry⟩ := hrecounts hre
    rw [hstate, accepted, put_thread hl' hsound.id_eq hthread', hcounted, hentry]

/-- A thread has written to a location, and another one has read it without an order. -/
def readBeside : List (Op Handle) :=
  [.start, .start, .start, .access ⟨0, 1⟩ ⟨7, .write⟩, .access ⟨0, 2⟩ ⟨7, .read⟩]

/-- A write that races changes nothing the second time. -/
theorem access_again_readBeside :
    (((forThree .epoch).run readBeside).step (.access ⟨0, 2⟩ ⟨7, .write⟩)).state.raceCount 7 = 2 ∧
    ((((forThree .epoch).run readBeside).step (.access ⟨0, 2⟩ ⟨7, .write⟩)).state.step
        (.access ⟨0, 2⟩ ⟨7, .write⟩)).state =
      (((forThree .epoch).run readBeside).step (.access ⟨0, 2⟩ ⟨7, .write⟩)).state := by
  obtain ⟨s, entry, -, -, -, hcalm, -⟩ := access_again (create_forThree .epoch) rfl readBeside
    (t := ⟨0, 2⟩) (a := ⟨7, .write⟩) (by decide) rfl
  exact ⟨by decide, hcalm fun hre => absurd hre.1 (by decide)⟩

/-- A read of shared reads that races with the last write is counted each time it is made. -/
theorem shared_read_counted_again : ∃ d : Detector .epoch 3, create .epoch 3 .default 0 = .ok d ∧
    ((d.run readBeside).step (.access ⟨0, 3⟩ ⟨7, .read⟩)).result = .ok .unit ∧
    (d.run (readBeside ++ [.access ⟨0, 3⟩ ⟨7, .read⟩])).raceCount 7 = 2 ∧
    (d.run (readBeside ++ [.access ⟨0, 3⟩ ⟨7, .read⟩, .access ⟨0, 3⟩ ⟨7, .read⟩])).raceCount 7 =
      3 :=
  ⟨forThree .epoch, create_forThree .epoch, by decide, by decide, by decide⟩

end Detector

end RaceWatch
