import BadOs.Ports
import Mathlib.Data.Finset.Lattice.Fold
import Mathlib.Data.Finset.Range

/-!
# The clock

`read_rtc` reads the clock twice until both times are the same. The registers hold the time in
BCD or binary, with 24 or 12 hours; the code takes every hour of the afternoon to be midnight and
leaves midnight at 12.
-/

namespace BadOs

namespace Rtc

/-! ## `rtc.c` -/

abbrev cmosAddr : BitVec 16 := 0x70

abbrev cmosData : BitVec 16 := 0x71

/-- The static variable. -/
structure RtcState where
  time : BitVec 32

def gettime (rtc : RtcState) : BitVec 32 := rtc.time

def isUpdateInProgress : PortProg (BitVec 16) (BitVec 8) := do
  outb cmosAddr 0x0a
  let status ← inb 0x71
  return status &&& 0x80

def getCmosReg (reg : BitVec 8) : PortProg (BitVec 16) (BitVec 8) := do
  outb cmosAddr reg
  inb cmosData

/-- A `char` is signed. -/
def fromBcd (x : BitVec 8) : BitVec 8 := BitVec.ofInt 8 ((x &&& 0xf).toInt + x.toInt.tdiv 16 * 10)

/-- The hour is `hour` after the first `if` of `read_rtc_internal`. -/
def adjustHour (regB hour : BitVec 8) : BitVec 8 :=
  if regB &&& 0x02 = 0 ∧ hour &&& 0x80 ≠ 0 then
    if hour &&& 0x80 ≠ 0 then 0 else (hour &&& 0x7f) + 12 % 24
  else hour

/-- What `read_rtc_internal` computes. -/
def secondsOf (second minute hour regB : BitVec 8) : BitVec 32 :=
  let decode := fun x => if regB &&& 0x04 = 0 then fromBcd x else x
  let hour := adjustHour regB (decode hour)
  BitVec.ofInt 32 ((hour.toInt * 60 + (decode minute).toInt) * 60 + (decode second).toInt)

def waitUpdate : (fuel : Nat) → PortProg (BitVec 16) Unit
  | 0 => .stuck
  | fuel + 1 => do
      let busy ← isUpdateInProgress
      if busy ≠ 0 then waitUpdate fuel else return ()

/-- The date is read as well. -/
def readRtcInternal (fuel : Nat) : PortProg (BitVec 16) (BitVec 32) := do
  waitUpdate fuel
  let second ← getCmosReg 0x00
  let minute ← getCmosReg 0x02
  let hour ← getCmosReg 0x04
  let _day ← getCmosReg 0x07
  let _month ← getCmosReg 0x08
  let _year ← getCmosReg 0x09
  let regB ← getCmosReg 0x0B
  return secondsOf second minute hour regB

/-- The loop of `read_rtc`, which gives up after so many rounds. -/
def readRtcLoop (fuel : Nat) : (rounds : Nat) → PortProg (BitVec 16) (BitVec 32)
  | 0 => .stuck
  | rounds + 1 => do
      let a ← readRtcInternal fuel
      let b ← readRtcInternal fuel
      if a ≠ b then readRtcLoop fuel rounds else return a

def readRtc (fuel : Nat) (rtc : RtcState) : PortProg (BitVec 16) (BitVec 32 × RtcState) := do
  let a ← readRtcLoop fuel fuel
  return (a, { rtc with time := a })

/-! ## The device -/

/-- The register that was selected, and how many were read. -/
structure Cmos where
  selected : BitVec 8
  reads : Nat

/-- The registers may be different at each read. -/
def respond (regs : Nat → BitVec 8 → BitVec 8) : (a : PortAccess (BitVec 16)) → Cmos →
    PortAccess.Answer a × Cmos
  | .outb port v, c => ((), if port = cmosAddr then { c with selected := v } else c)
  | .inb port, c =>
      if port = cmosData then (regs c.reads c.selected, { c with reads := c.reads + 1 })
      else (0xff, c)
  | .inw _, c => (0xffff, c)
  | .inl _, c => (0xffffffff, c)

/-- What register B says about the others. -/
structure Mode where
  bcd : Bool
  twelve : Bool
  deriving DecidableEq

/-- A time of the day. -/
@[ext] structure TimeOfDay where
  hour : Fin 24
  minute : Fin 60
  second : Fin 60
  deriving DecidableEq

def TimeOfDay.seconds (t : TimeOfDay) : Nat :=
  3600 * t.hour.val + 60 * t.minute.val + t.second.val

namespace Mode

def encode (mode : Mode) (n : Nat) : BitVec 8 :=
  if mode.bcd then BitVec.ofNat 8 (16 * (n / 10) + n % 10) else BitVec.ofNat 8 n

/-- With twelve hours, those from noon on have the highest bit set. -/
def encodeHour (mode : Mode) (h : Fin 24) : BitVec 8 :=
  if mode.twelve then
    mode.encode (if h.val % 12 = 0 then 12 else h.val % 12) ||| if 12 ≤ h.val then 0x80 else 0
  else mode.encode h.val

/-- Register B is in this mode. -/
structure Selects (mode : Mode) (regB : BitVec 8) : Prop where
  bcd : regB &&& 0x04 = 0 ↔ mode.bcd = true
  twelve : regB &&& 0x02 = 0 ↔ mode.twelve = true

end Mode

/-- How often the clock is busy before a full read, and the time that is read then. -/
structure FullRead where
  busy : Nat
  time : TimeOfDay

/-- The number of registers that are read before the `k`-th full read. -/
def position (reads : Nat → FullRead) : Nat → Nat
  | 0 => 0
  | k + 1 => position reads k + (reads k).busy + 8

/-- The registers go through these full reads, one after the other. -/
structure Shows (regs : Nat → BitVec 8 → BitVec 8) (mode : Mode) (reads : Nat → FullRead) :
    Prop where
  busy : ∀ k, ∀ i < (reads k).busy, regs (position reads k + i) 0x0a &&& 0x80 ≠ 0
  ready : ∀ k, regs (position reads k + (reads k).busy) 0x0a &&& 0x80 = 0
  second : ∀ k, regs (position reads k + (reads k).busy + 1) 0x00 =
    mode.encode (reads k).time.second.val
  minute : ∀ k, regs (position reads k + (reads k).busy + 2) 0x02 =
    mode.encode (reads k).time.minute.val
  hour : ∀ k, regs (position reads k + (reads k).busy + 3) 0x04 =
    mode.encodeHour (reads k).time.hour
  regB : ∀ k, mode.Selects (regs (position reads k + (reads k).busy + 7) 0x0B)

/-! ## What the code makes of a time -/

/-- The hour that is computed. -/
def codeHour (mode : Mode) (h : Nat) : Nat :=
  if mode.twelve then if 12 ≤ h then 0 else if h = 0 then 12 else h else h

def codeSeconds (mode : Mode) (t : TimeOfDay) : Nat :=
  3600 * codeHour mode t.hour.val + 60 * t.minute.val + t.second.val

theorem decode_encode (mode : Mode) (n : Fin 60) :
    (if mode.bcd = true then fromBcd (mode.encode n.val) else mode.encode n.val) =
      BitVec.ofNat 8 n.val := by
  obtain ⟨bcd, twelve⟩ := mode
  revert bcd twelve n
  decide +kernel

/-- The bit is tested twice, so that the hours of the afternoon all become zero. -/
theorem adjustHour_eq {mode : Mode} {regB : BitVec 8} (h : mode.Selects regB) (hour : BitVec 8) :
    adjustHour regB hour = if mode.twelve = true ∧ hour &&& 0x80 ≠ 0 then 0 else hour := by
  unfold adjustHour
  simp only [h.twelve]
  by_cases hpm : mode.twelve = true ∧ hour &&& 0x80 ≠ 0
  · rw [if_pos hpm, if_pos hpm, if_pos hpm.2]
  · rw [if_neg hpm, if_neg hpm]

/-- The bit for the afternoon is still there when the hour was decoded, and clears it. -/
theorem adjust_encodeHour (mode : Mode) (h : Fin 24) :
    (let hour := if mode.bcd = true then fromBcd (mode.encodeHour h) else mode.encodeHour h
      if mode.twelve = true ∧ hour &&& 0x80 ≠ 0 then 0 else hour) =
      BitVec.ofNat 8 (codeHour mode h.val) := by
  obtain ⟨bcd, twelve⟩ := mode
  revert bcd twelve h
  decide +kernel

theorem codeHour_le (mode : Mode) {h : Nat} (hh : h < 24) : codeHour mode h < 24 := by
  unfold codeHour
  split
  · split
    · omega
    · split <;> omega
  · exact hh

theorem toInt_ofNat {n : Nat} (h : n < 128) : (BitVec.ofNat 8 n).toInt = n := by
  rw [BitVec.toInt_eq_toNat_of_lt] <;> rw [BitVec.toNat_ofNat] <;> omega

theorem secondsOf_eq {mode : Mode} {regB : BitVec 8} (h : mode.Selects regB) (t : TimeOfDay) :
    secondsOf (mode.encode t.second.val) (mode.encode t.minute.val) (mode.encodeHour t.hour) regB =
      BitVec.ofNat 32 (codeSeconds mode t) := by
  have hminute := t.minute.isLt
  have hsecond := t.second.isLt
  have hhour := codeHour_le mode t.hour.isLt
  have hadjust : adjustHour regB (if mode.bcd = true then fromBcd (mode.encodeHour t.hour)
      else mode.encodeHour t.hour) = BitVec.ofNat 8 (codeHour mode t.hour.val) := by
    rw [adjustHour_eq h]
    exact adjust_encodeHour mode t.hour
  unfold secondsOf
  simp only [h.bcd]
  rw [hadjust, decode_encode, decode_encode, toInt_ofNat (by omega), toInt_ofNat (by omega),
    toInt_ofNat (by omega)]
  have hsum : (((codeHour mode t.hour.val : Nat) : Int) * 60 + (t.minute.val : Int)) * 60 +
      (t.second.val : Int) = ((codeSeconds mode t : Nat) : Int) := by
    unfold codeSeconds
    omega
  rw [hsum]
  rfl

/-- Two times for which the code computes the same: hours of the afternoon are mixed up. -/
def Confused (mode : Mode) (t t' : TimeOfDay) : Prop :=
  t = t' ∨ mode.twelve = true ∧ 12 ≤ t.hour.val ∧ 12 ≤ t'.hour.val ∧ t.minute = t'.minute ∧
    t.second = t'.second

/-- The code computes the right time. -/
def Correct (mode : Mode) (t : TimeOfDay) : Prop :=
  mode.twelve = false ∨ 1 ≤ t.hour.val ∧ t.hour.val ≤ 11

theorem codeHour_eq_iff {mode : Mode} {h h' : Nat} :
    codeHour mode h = codeHour mode h' ↔
      h = h' ∨ mode.twelve = true ∧ 12 ≤ h ∧ 12 ≤ h' := by
  unfold codeHour
  cases mode.twelve with
  | false => simp
  | true =>
      simp only [if_true, true_and]
      constructor
      · intro heq
        split_ifs at heq <;> omega
      · intro heq
        split_ifs <;> omega

theorem codeSeconds_eq_iff {mode : Mode} {t t' : TimeOfDay} :
    codeSeconds mode t = codeSeconds mode t' ↔ Confused mode t t' := by
  have hminute := t.minute.isLt
  have hminute' := t'.minute.isLt
  have hsecond := t.second.isLt
  have hsecond' := t'.second.isLt
  have hparts : codeSeconds mode t = codeSeconds mode t' ↔
      codeHour mode t.hour.val = codeHour mode t'.hour.val ∧ t.minute = t'.minute ∧
        t.second = t'.second := by
    rw [Fin.ext_iff, Fin.ext_iff]
    unfold codeSeconds
    omega
  rw [hparts, codeHour_eq_iff]
  constructor
  · rintro ⟨heq | ⟨htwelve, hpm, hpm'⟩, hm, hs⟩
    · exact .inl (TimeOfDay.ext (Fin.ext heq) hm hs)
    · exact .inr ⟨htwelve, hpm, hpm', hm, hs⟩
  · rintro (rfl | ⟨htwelve, hpm, hpm', hm, hs⟩)
    · exact ⟨.inl rfl, rfl, rfl⟩
    · exact ⟨.inr ⟨htwelve, hpm, hpm'⟩, hm, hs⟩

theorem codeSeconds_eq_seconds_iff {mode : Mode} {t : TimeOfDay} :
    codeSeconds mode t = t.seconds ↔ Correct mode t := by
  have hhour : codeSeconds mode t = t.seconds ↔ codeHour mode t.hour.val = t.hour.val := by
    unfold codeSeconds TimeOfDay.seconds
    omega
  rw [hhour]
  unfold codeHour Correct
  cases mode.twelve with
  | false => simp
  | true =>
      simp only [if_true, Bool.true_eq_false, false_or]
      split
      · omega
      · split <;> omega

theorem codeSeconds_lt (mode : Mode) (t : TimeOfDay) : codeSeconds mode t < 2 ^ 32 := by
  have hhour := codeHour_le mode t.hour.isLt
  have hminute := t.minute.isLt
  have hsecond := t.second.isLt
  unfold codeSeconds
  omega

/-! ## Runs -/

section

variable {regs : Nat → BitVec 8 → BitVec 8} {mode : Mode} {reads : Nat → FullRead} {c : Cmos}
  {k : Nat}

theorem run_isUpdateInProgress (regs : Nat → BitVec 8 → BitVec 8) (c : Cmos) :
    isUpdateInProgress.run (respond regs) c =
      some (regs c.reads 0x0a &&& 0x80, ⟨0x0a, c.reads + 1⟩) := rfl

/-- The clock is busy `n` more times. -/
theorem run_waitUpdate {n : Nat} (hbusy : ∀ i < n, regs (c.reads + i) 0x0a &&& 0x80 ≠ 0)
    (hready : regs (c.reads + n) 0x0a &&& 0x80 = 0) (fuel : Nat) :
    (waitUpdate fuel).run (respond regs) c =
      if n < fuel then some ((), ⟨0x0a, c.reads + n + 1⟩) else none := by
  induction fuel generalizing n c with
  | zero => rfl
  | succ fuel ih =>
      rw [waitUpdate, Prog.run_bind_of_eq (run_isUpdateInProgress regs c)]
      cases n with
      | zero =>
          rw [if_neg (by exact not_not.mpr hready), if_pos (Nat.zero_lt_succ fuel)]
          rfl
      | succ n =>
          have hrest := ih (c := ⟨0x0a, c.reads + 1⟩) (n := n)
          simp only [Nat.add_assoc c.reads 1, Nat.add_comm 1] at hrest
          rw [if_pos (by exact hbusy 0 (Nat.zero_lt_succ n)),
            hrest (fun i hi => hbusy (i + 1) (Nat.succ_lt_succ hi)) hready]
          simp only [Nat.add_lt_add_iff_right]

theorem run_readRtcInternal (h : Shows regs mode reads) (hc : c.reads = position reads k)
    (fuel : Nat) :
    (readRtcInternal fuel).run (respond regs) c =
      if (reads k).busy < fuel then some (BitVec.ofNat 32 (codeSeconds mode (reads k).time),
        ⟨0x0B, position reads (k + 1)⟩)
      else none := by
  have hwait := run_waitUpdate (c := c) (n := (reads k).busy) (hc ▸ h.busy k) (hc ▸ h.ready k) fuel
  unfold readRtcInternal
  by_cases hfuel : (reads k).busy < fuel
  · rw [if_pos hfuel, hc] at hwait
    rw [if_pos hfuel, Prog.run_bind_of_eq hwait, ← secondsOf_eq (h.regB k), ← h.second k,
      ← h.minute k, ← h.hour k]
    rfl
  · rw [if_neg hfuel] at hwait
    rw [if_neg hfuel, Prog.run_bind, hwait]
    rfl

/-! ## The loop -/

/-- The two reads of a round give the same. -/
def Agrees (mode : Mode) (reads : Nat → FullRead) (k : Nat) : Prop :=
  Confused mode (reads (2 * k)).time (reads (2 * k + 1)).time

theorem ofNat_codeSeconds_inj {t t' : TimeOfDay} :
    BitVec.ofNat 32 (codeSeconds mode t) = BitVec.ofNat 32 (codeSeconds mode t') ↔
      Confused mode t t' := by
  rw [← codeSeconds_eq_iff]
  constructor
  · intro heq
    have htoNat := congrArg BitVec.toNat heq
    rwa [BitVec.toNat_ofNat, BitVec.toNat_ofNat, Nat.mod_eq_of_lt (codeSeconds_lt mode t),
      Nat.mod_eq_of_lt (codeSeconds_lt mode t')] at htoNat
  · exact congrArg _

/-- A round, if the clock does not stay busy for too long. -/
theorem run_round (h : Shows regs mode reads) (hc : c.reads = position reads (2 * k))
    {fuel : Nat} (rounds : Nat)
    (hfuel : (reads (2 * k)).busy < fuel ∧ (reads (2 * k + 1)).busy < fuel) :
    (readRtcLoop fuel (rounds + 1)).run (respond regs) c =
      (if BitVec.ofNat 32 (codeSeconds mode (reads (2 * k)).time) ≠
          BitVec.ofNat 32 (codeSeconds mode (reads (2 * k + 1)).time) then
        readRtcLoop fuel rounds
      else pure (BitVec.ofNat 32 (codeSeconds mode (reads (2 * k)).time))).run (respond regs)
        ⟨0x0B, position reads (2 * (k + 1))⟩ := by
  have hfirst := run_readRtcInternal h hc fuel
  rw [if_pos hfuel.1] at hfirst
  have hsecond := run_readRtcInternal h (c := ⟨0x0B, position reads (2 * k + 1)⟩) rfl fuel
  rw [if_pos hfuel.2] at hsecond
  rw [readRtcLoop, Prog.run_bind_of_eq hfirst, Prog.run_bind_of_eq hsecond]
  rfl

theorem run_round_stuck (h : Shows regs mode reads) (hc : c.reads = position reads (2 * k))
    {fuel : Nat} (rounds : Nat)
    (hfuel : ¬((reads (2 * k)).busy < fuel ∧ (reads (2 * k + 1)).busy < fuel)) :
    (readRtcLoop fuel (rounds + 1)).run (respond regs) c = none := by
  have hfirst := run_readRtcInternal h hc fuel
  have hsecond := run_readRtcInternal h (c := ⟨0x0B, position reads (2 * k + 1)⟩) rfl fuel
  rw [readRtcLoop]
  by_cases hbusy : (reads (2 * k)).busy < fuel
  · rw [if_pos hbusy] at hfirst
    rw [if_neg fun hbusy' => hfuel ⟨hbusy, hbusy'⟩] at hsecond
    rw [Prog.run_bind_of_eq hfirst, Prog.run_bind, hsecond]
    rfl
  · rw [if_neg hbusy] at hfirst
    rw [Prog.run_bind, hfirst]
    rfl

/-- The first round whose reads agree is the last one. -/
theorem run_loop (h : Shows regs mode reads) (n : Nat) {j : Nat} (fuel rounds : Nat)
    (hc : c.reads = position reads (2 * j)) (hfuel : ∀ i < 2 * (j + n + 1), (reads i).busy < fuel)
    (hrounds : n < rounds) (hbefore : ∀ i < n, ¬Agrees mode reads (j + i))
    (hagrees : Agrees mode reads (j + n)) :
    (readRtcLoop fuel rounds).run (respond regs) c =
      some (BitVec.ofNat 32 (codeSeconds mode (reads (2 * (j + n))).time),
        ⟨0x0B, position reads (2 * (j + n + 1))⟩) := by
  induction n generalizing j rounds c with
  | zero =>
      obtain ⟨rounds, rfl⟩ := Nat.exists_eq_add_one_of_ne_zero (Nat.ne_zero_of_lt hrounds)
      rw [Nat.add_zero] at hfuel hagrees ⊢
      rw [run_round h hc rounds ⟨hfuel _ (by omega), hfuel _ (by omega)⟩,
        if_neg (not_not.mpr (ofNat_codeSeconds_inj.mpr hagrees))]
      rfl
  | succ n ih =>
      obtain ⟨rounds, rfl⟩ := Nat.exists_eq_add_one_of_ne_zero (Nat.ne_zero_of_lt hrounds)
      have hround : ¬Agrees mode reads j := hbefore 0 (Nat.zero_lt_succ n)
      have hnext : j + (n + 1) = j + 1 + n := by omega
      rw [run_round h hc rounds ⟨hfuel _ (by omega), hfuel _ (by omega)⟩,
        if_pos fun heq => hround (ofNat_codeSeconds_inj.mp heq)]
      rw [hnext] at hfuel hagrees ⊢
      refine ih rounds rfl hfuel (Nat.lt_of_succ_lt_succ hrounds) (fun i hi => ?_) hagrees
      have hlater := hbefore (i + 1) (Nat.succ_lt_succ hi)
      rwa [show j + (i + 1) = j + 1 + i by omega] at hlater

/-- Without such a round the loop does not end. -/
theorem run_loop_stuck (h : Shows regs mode reads) (hnever : ∀ i, ¬Agrees mode reads i)
    (hc : c.reads = position reads (2 * k)) (fuel rounds : Nat) :
    (readRtcLoop fuel rounds).run (respond regs) c = none := by
  induction rounds generalizing c k with
  | zero => rfl
  | succ rounds ih =>
      by_cases hfuel : (reads (2 * k)).busy < fuel ∧ (reads (2 * k + 1)).busy < fuel
      · rw [run_round h hc rounds hfuel,
          if_pos fun heq => hnever k (ofNat_codeSeconds_inj.mp heq)]
        exact ih (k := k + 1) rfl
      · exact run_round_stuck h hc rounds hfuel

theorem position_lt {j k : Nat} (h : j < k) : position reads j < position reads k := by
  induction k with
  | zero => exact absurd h (Nat.not_lt_zero j)
  | succ k ih =>
      have hstep : position reads (k + 1) = position reads k + (reads k).busy + 8 := rfl
      obtain hlt | rfl := Nat.lt_succ_iff_lt_or_eq.mp h
      · have hbefore := ih hlt
        omega
      · omega

/-- After the two reads of some round, which gave the same time, `read_rtc` returns and stores
that time. -/
def ReadsTime (regs : Nat → BitVec 8 → BitVec 8) (reads : Nat → FullRead) : Prop :=
  ∃ k, (reads (2 * k)).time = (reads (2 * k + 1)).time ∧ ∃ fuel₀, ∀ fuel, fuel₀ ≤ fuel →
    ∀ rtc c, c.reads = 0 → ∃ rtc' c',
      (readRtc fuel rtc).run (respond regs) c =
        some ((BitVec.ofNat 32 (reads (2 * k)).time.seconds, rtc'), c') ∧
      gettime rtc' = BitVec.ofNat 32 (reads (2 * k)).time.seconds ∧
      c'.reads = position reads (2 * (k + 1))

/-- Enough fuel for the first rounds. -/
theorem run_readRtc (h : Shows regs mode reads) (hbefore : ∀ i < k, ¬Agrees mode reads i)
    (hagrees : Agrees mode reads k) : ∃ fuel₀, ∀ fuel, fuel₀ ≤ fuel → ∀ rtc c, c.reads = 0 →
      (readRtc fuel rtc).run (respond regs) c =
        some ((BitVec.ofNat 32 (codeSeconds mode (reads (2 * k)).time),
          ⟨BitVec.ofNat 32 (codeSeconds mode (reads (2 * k)).time)⟩),
          ⟨0x0B, position reads (2 * (k + 1))⟩) := by
  refine ⟨(Finset.range (2 * (k + 1))).sup (fun i => (reads i).busy) + k + 1, ?_⟩
  intro fuel hfuel rtc c hc
  have hloop := run_loop h k (j := 0) fuel fuel hc (fun i hi => ?_)
    (by omega) (by simpa using hbefore) (by simpa using hagrees)
  · rw [Nat.zero_add] at hloop
    rw [readRtc, Prog.run_bind_of_eq hloop]
    rfl
  · rw [Nat.zero_add] at hi
    have hle : (reads i).busy ≤ (Finset.range (2 * (k + 1))).sup fun i => (reads i).busy :=
      Finset.le_sup (f := fun i => (reads i).busy) (Finset.mem_range.mpr hi)
    omega

/-- There is a first round that ends the loop, or it never ends. -/
theorem exists_first (mode : Mode) (reads : Nat → FullRead) :
    (∃ k, Agrees mode reads k ∧ ∀ i < k, ¬Agrees mode reads i) ∨ ∀ i, ¬Agrees mode reads i := by
  classical
  by_cases hsome : ∃ k, Agrees mode reads k
  · exact .inl ⟨Nat.find hsome, Nat.find_spec hsome, fun i hi => Nat.find_min hsome hi⟩
  · exact .inr (not_exists.mp hsome)

/-- The round after which the time is returned is the first one whose reads look the same. -/
theorem correct_of_readsTime (h : Shows regs mode reads) (hreads : ReadsTime regs reads) :
    ∃ k, (reads (2 * k)).time = (reads (2 * k + 1)).time ∧
      Correct mode (reads (2 * k)).time ∧ ∀ i < k, ¬Agrees mode reads i := by
  obtain ⟨k, hsame, fuel₀, hreturns⟩ := hreads
  obtain ⟨j, hagrees, hbefore⟩ | hnever := exists_first mode reads
  · obtain ⟨fuel₁, hrun⟩ := run_readRtc h hbefore hagrees
    obtain ⟨rtc', c', hrun', _, hreads⟩ := hreturns (max fuel₀ fuel₁) (Nat.le_max_left _ _) ⟨0⟩
      ⟨0, 0⟩ rfl
    have hfirst := hrun (max fuel₀ fuel₁) (Nat.le_max_right _ _) ⟨0⟩ ⟨0, 0⟩ rfl
    rw [hrun', Option.some.injEq, Prod.mk.injEq, Prod.mk.injEq] at hfirst
    obtain ⟨⟨hvalue, _⟩, rfl⟩ := hfirst
    obtain hlt | rfl | hgt := Nat.lt_trichotomy j k
    · exact absurd hreads (position_lt (by omega)).ne
    · refine ⟨j, hsame, ?_, hbefore⟩
      have hseconds : (reads (2 * j)).time.seconds < 2 ^ 32 := by
        have hhour := (reads (2 * j)).time.hour.isLt
        have hminute := (reads (2 * j)).time.minute.isLt
        have hsecond := (reads (2 * j)).time.second.isLt
        unfold TimeOfDay.seconds
        omega
      have htoNat := congrArg BitVec.toNat hvalue
      rw [BitVec.toNat_ofNat, BitVec.toNat_ofNat, Nat.mod_eq_of_lt hseconds,
        Nat.mod_eq_of_lt (codeSeconds_lt mode _)] at htoNat
      exact codeSeconds_eq_seconds_iff.mp htoNat.symm
    · exact absurd hreads (position_lt (by omega)).ne'
  · obtain ⟨_, _, hrun, _⟩ := hreturns fuel₀ (Nat.le_refl _) ⟨0⟩ ⟨0, 0⟩ rfl
    rw [readRtc, Prog.run_bind, run_loop_stuck h hnever (k := 0) rfl] at hrun
    cases hrun

/-- `read_rtc` returns the time exactly if the first round whose reads look the same is one whose
reads are the same, and this is not midnight or in the afternoon on a clock with twelve hours. -/
theorem read_rtc_iff (h : Shows regs mode reads) :
    ReadsTime regs reads ↔ ∃ k, (reads (2 * k)).time = (reads (2 * k + 1)).time ∧
      Correct mode (reads (2 * k)).time ∧ ∀ i < k, ¬Agrees mode reads i := by
  constructor
  · exact correct_of_readsTime h
  · rintro ⟨k, hsame, hcorrect, hbefore⟩
    obtain ⟨fuel₀, hrun⟩ := run_readRtc h hbefore (.inl hsame)
    rw [codeSeconds_eq_seconds_iff.mpr hcorrect] at hrun
    exact ⟨k, hsame, fuel₀, fun fuel hfuel rtc c hc => ⟨_, _, hrun fuel hfuel rtc c hc, rfl, rfl⟩⟩

end

/-- Register B with no other bits. -/
def Mode.registerB (mode : Mode) : BitVec 8 :=
  (if mode.bcd then 0 else 0x04) ||| if mode.twelve then 0 else 0x02

theorem Mode.selects_registerB (mode : Mode) : mode.Selects mode.registerB := by
  obtain ⟨bcd, twelve⟩ := mode
  cases bcd <;> cases twelve <;> exact ⟨by decide, by decide⟩

/-- Registers that stay as they are. -/
def steady (mode : Mode) (t : TimeOfDay) (_read : Nat) (reg : BitVec 8) : BitVec 8 :=
  if reg = 0x00 then mode.encode t.second.val
  else if reg = 0x02 then mode.encode t.minute.val
  else if reg = 0x04 then mode.encodeHour t.hour
  else if reg = 0x0B then mode.registerB
  else 0

theorem steady_shows (mode : Mode) (t : TimeOfDay) :
    Shows (steady mode t) mode fun _ => ⟨0, t⟩ := by
  have hready : (0 : BitVec 8) &&& 0x80 = 0 := by decide
  constructor
  · exact fun k i hi => absurd hi (Nat.not_lt_zero i)
  · exact fun _ => hready
  · exact fun _ => rfl
  · exact fun _ => rfl
  · exact fun _ => rfl
  · exact fun _ => mode.selects_registerB

/-- At one o'clock in the afternoon a clock with twelve hours is read as midnight. -/
theorem read_rtc_afternoon : ¬∀ (regs : Nat → BitVec 8 → BitVec 8) (mode : Mode)
    (reads : Nat → FullRead), Shows regs mode reads →
    (∃ k, (reads k).time = (reads (k + 1)).time) → ReadsTime regs reads := by
  intro claim
  have hshows := steady_shows ⟨true, true⟩ ⟨13, 0, 0⟩
  obtain ⟨_, _, hcorrect, _⟩ := correct_of_readsTime hshows (claim _ _ _ hshows ⟨0, rfl⟩)
  unfold Correct at hcorrect
  exact absurd hcorrect (by decide)

/-- Half past eleven in the morning. -/
theorem read_rtc_morning :
    ReadsTime (steady ⟨true, true⟩ ⟨11, 30, 0⟩) fun _ => ⟨0, ⟨11, 30, 0⟩⟩ := by
  refine (read_rtc_iff (steady_shows ⟨true, true⟩ ⟨11, 30, 0⟩)).mpr ⟨0, rfl, ?_, ?_⟩
  · exact .inr (by decide)
  · exact fun i hi => absurd hi (Nat.not_lt_zero i)

end Rtc

end BadOs
