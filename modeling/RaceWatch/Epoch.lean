import RaceWatch.Access

/-!
An epoch names one point in the history of one thread. It is a 64-bit word: the
thread's identity in the high 8 bits and the clock value in the low 56. Two words
are set aside. Both carry the identity that no thread has, so no point in the
history of a real thread is mistaken for one of them. That the parts of an epoch fit
their bits is asserted in debug builds, and taken for granted in release builds.
-/

namespace RaceWatch

/-- A thread's identity and a clock value of that thread, packed into one word. -/
structure Epoch where
  word : UInt64
deriving DecidableEq

namespace Epoch

/-- The number of clock values an epoch can tell apart. -/
def clockSpan : Nat := 1 <<< 56

/-- The largest clock value that an epoch has room for. -/
def maxClock : Nat := clockSpan - 1

/-- The thread whose history the epoch points into. -/
def thread (e : Epoch) : Nat := e.word.toNat / clockSpan

/-- The point in that history. -/
def clock (e : Epoch) : Nat := e.word.toNat % clockSpan

/-- The word for a thread and a clock value that both fit. -/
def pack (thread : Nat) (clock : Nat) : Epoch :=
  ⟨.ofNat (thread * clockSpan + clock)⟩

/-- The epoch of a location that nobody has touched yet. -/
def empty : Epoch := pack noThread 1

/-- The mark that stands for a read epoch where the reads of a location are kept
in a full vector clock instead. -/
def shared : Epoch := pack noThread 0

def isEmpty (e : Epoch) : Bool := e == empty

def isShared (e : Epoch) : Bool := e == shared

/-- A clock value and the thread it belongs to, in the form `clock@thread`. -/
def text (e : Epoch) : String :=
  if e.isShared then "shared" else s!"{e.clock}@{e.thread}"

/-- Which of the two parts of an epoch is too large for its bits. -/
inductive Misfit where
  | thread
  | clock
deriving DecidableEq

def Misfit.message : Misfit → String
  | .thread => "thread identity does not fit in an epoch"
  | .clock => "clock value does not fit in an epoch"

/-- How a program is built. Debug assertions are left out of a release build. -/
inductive Build where
  | debug
  | release
deriving DecidableEq

/-- The bits that belong to the clock value. -/
def clockMask : UInt64 := ~~~(~~~(0 : UInt64) <<< 56)

/-- The word with a thread in its high byte and a clock value in all other bits. Of numbers that
are too large it has the low bits only. -/
def wordOf (thread clock : UInt64) : UInt64 := (thread <<< 56) ||| (clock &&& clockMask)

/-- Pack a thread and a clock value. That each of them fits is a debug assertion, and the one about
the thread comes first. A release build cuts off the bits that there is no room for. -/
def constructIn (build : Build) (thread : Nat) (clock : Nat) : Except Misfit Epoch :=
  if build = .debug ∧ maxThread < thread then .error .thread
  else if build = .debug ∧ maxClock < clock then .error .clock
  else .ok ⟨wordOf (.ofNat thread) (.ofNat clock)⟩

/-- Pack a thread and a clock value in a debug build, which refuses either of them that does not
fit. Detectors are those of a debug build. What they pack fits, so the build makes no difference to
them. -/
def construct (thread : Nat) (clock : Nat) : Except Misfit Epoch :=
  constructIn .debug thread clock

/-! ### The bits of a word -/

theorem clockSpan_eq : clockSpan = 72057594037927936 := rfl

theorem toNat_clockMask : clockMask.toNat = maxClock := by decide

theorem toNat_and_clockMask (w : UInt64) : (w &&& clockMask).toNat = w.toNat % clockSpan := by
  rw [UInt64.toNat_and, toNat_clockMask]
  exact Nat.and_two_pow_sub_one_eq_mod w.toNat 56

/-- Shifted into the high byte, a number keeps as many bits as there are in a byte. -/
theorem toNat_highByte (w : UInt64) :
    (w <<< 56).toNat = (w.toNat % (maxThread + 1)) <<< 56 := by
  have hdistance : (56 : UInt64).toNat % 64 = 56 := by decide
  rw [UInt64.toNat_shiftLeft, hdistance, Nat.shiftLeft_eq, Nat.shiftLeft_eq, maxThread]
  omega

/-- The two fields have no bit in common, so the word is their sum. -/
theorem toNat_wordOf (t c : UInt64) :
    (wordOf t c).toNat = t.toNat % (maxThread + 1) * clockSpan + c.toNat % clockSpan := by
  have hfits : c.toNat % clockSpan < 2 ^ 56 := Nat.mod_lt _ (by decide)
  -- The low field is smaller than the shift, so a bitwise or adds it to the high one.
  rw [wordOf, UInt64.toNat_or, toNat_highByte, toNat_and_clockMask,
    ← Nat.shiftLeft_add_eq_or_of_lt hfits, Nat.shiftLeft_eq]
  rfl

/-! ### The two parts of a packed word -/

theorem toNat_pack {t : Nat} {c : Nat} (ht : t ≤ maxThread) (hc : c ≤ maxClock) :
    (pack t c).word.toNat = t * clockSpan + c := by
  simp only [maxThread, maxClock, clockSpan_eq] at *
  simp only [pack, clockSpan_eq, UInt64.toNat_ofNat']
  omega

theorem thread_pack {t : Nat} {c : Nat} (ht : t ≤ maxThread) (hc : c ≤ maxClock) :
    (pack t c).thread = t := by
  rw [thread, toNat_pack ht hc]
  simp only [maxClock, clockSpan_eq] at *
  omega

theorem clock_pack {t : Nat} {c : Nat} (ht : t ≤ maxThread) (hc : c ≤ maxClock) :
    (pack t c).clock = c := by
  rw [clock, toNat_pack ht hc]
  simp only [maxClock, clockSpan_eq] at *
  omega

theorem thread_le (e : Epoch) : e.thread ≤ maxThread := by
  have := e.word.toNat_lt
  simp only [thread, maxThread, clockSpan_eq]
  omega

theorem clock_le (e : Epoch) : e.clock ≤ maxClock := by
  simp only [clock, maxClock, clockSpan_eq]
  omega

/-- Every word is the packing of its own two parts. -/
theorem pack_thread_clock (e : Epoch) : pack e.thread e.clock = e := by
  have h := toNat_pack e.thread_le e.clock_le
  have : (pack e.thread e.clock).word.toNat = e.word.toNat := by
    rw [h, thread, clock]
    exact Nat.div_add_mod' _ _
  cases e
  exact congrArg Epoch.mk (UInt64.toNat_inj.1 this)

theorem ext_parts {a b : Epoch} (ht : a.thread = b.thread) (hc : a.clock = b.clock) :
    a = b := by
  rw [← pack_thread_clock a, ← pack_thread_clock b, ht, hc]

theorem thread_wordOf (t c : UInt64) : thread ⟨wordOf t c⟩ = t.toNat % (maxThread + 1) := by
  rw [thread, toNat_wordOf, clockSpan_eq]
  omega

theorem clock_wordOf (t c : UInt64) : clock ⟨wordOf t c⟩ = c.toNat % clockSpan := by
  rw [clock, toNat_wordOf, Nat.mul_add_mod', Nat.mod_mod]

@[simp] theorem thread_empty : empty.thread = noThread := by decide

@[simp] theorem clock_empty : empty.clock = 1 := by decide

@[simp] theorem thread_shared : shared.thread = noThread := by decide

@[simp] theorem clock_shared : shared.clock = 0 := by decide

/-! ### What a build makes of two numbers -/

/-- Of what does not fit, a release build packs the remainders. -/
theorem constructIn_release (t c : Nat) :
    constructIn .release t c = .ok (pack (t % (maxThread + 1)) (c % clockSpan)) := by
  have ht : t % 2 ^ 64 % (maxThread + 1) = t % (maxThread + 1) :=
    Nat.mod_mod_of_dvd t (by decide)
  have hc : c % 2 ^ 64 % clockSpan = c % clockSpan := Nat.mod_mod_of_dvd c (by decide)
  have htlt : t % (maxThread + 1) < maxThread + 1 := Nat.mod_lt _ (by decide)
  have hclt : c % clockSpan < maxClock + 1 := Nat.mod_lt _ (by decide)
  refine congrArg Except.ok (ext_parts ?_ ?_)
  · rw [thread_wordOf, UInt64.toNat_ofNat', ht, thread_pack (by omega) (by omega)]
  · rw [clock_wordOf, UInt64.toNat_ofNat', hc, clock_pack (by omega) (by omega)]

/-- What fits is packed in every build. -/
theorem constructIn_of_fits {t : Nat} {c : Nat} (build : Build) (ht : t ≤ maxThread)
    (hc : c ≤ maxClock) : constructIn build t c = .ok (pack t c) := by
  have hspan : c < clockSpan := Nat.lt_of_le_of_lt hc (by decide)
  have hrelease := constructIn_release t c
  rw [Nat.mod_eq_of_lt (Nat.lt_succ_of_le ht), Nat.mod_eq_of_lt hspan] at hrelease
  rw [← hrelease]
  cases build with
  | release => rfl
  | debug =>
    have hthread : ¬ (Build.debug = .debug ∧ maxThread < t) := fun h => Nat.not_lt_of_le ht h.2
    have hclock : ¬ (Build.debug = .debug ∧ maxClock < c) := fun h => Nat.not_lt_of_le hc h.2
    rw [constructIn, if_neg hthread, if_neg hclock]
    rfl

theorem construct_eq_pack {t : Nat} {c : Nat} (ht : t ≤ maxThread) (hc : c ≤ maxClock) :
    construct t c = .ok (pack t c) :=
  constructIn_of_fits .debug ht hc

end Epoch

end RaceWatch
