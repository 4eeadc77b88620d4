import BadOs.Data.Leads
import BadOs.Data.Words
import Mathlib.Logic.Function.Basic

/-!
# A part of the 64 bit x86 processor

The instructions that move words between registers, segment registers and the stack, and those that
pass control on. Addresses of instructions are given by a program that is in memory: of every
block of instructions each one has an address, and the processor finds there the instruction and the
address of the next.

Functions that were compiled from another language are called by their addresses. What such a
function may leave behind is what the calling convention says, and what it does to the rest of the
world is given.

Descriptors are not looked up, so no access to one fails. Of the flags that arithmetic sets there
are those that a conditional jump looks at, and only comparisons set them.
-/

namespace X86

inductive Reg where
  | rax | rbx | rcx | rdx | rsi | rdi | rbp | rsp
  | r8 | r9 | r10 | r11 | r12 | r13 | r14 | r15
  deriving DecidableEq

inductive Seg where
  | cs | ss | ds | es | fs | gs
  deriving DecidableEq

/-- The registers of the system: the model-specific ones, limit and base of the global descriptor
table, and the selector of the task. -/
structure Control where
  msr : BitVec 32 → BitVec 64
  gdtr : BitVec 16 × BitVec 64
  tr : BitVec 16

structure State where
  reg : Reg → BitVec 64
  seg : Seg → BitVec 16
  rip : BitVec 64
  flags : BitVec 64
  ctl : Control
  mem : ByteMem

namespace State

def set (r : Reg) (v : BitVec 64) (s : State) : State := { s with reg := Function.update s.reg r v }

def setSeg (x : Seg) (v : BitVec 16) (s : State) : State :=
  { s with seg := Function.update s.seg x v }

@[simp] theorem set_self (r : Reg) (v : BitVec 64) (s : State) : (s.set r v).reg r = v := by
  unfold set
  exact Function.update_self ..

theorem set_of_ne {r r' : Reg} (h : r ≠ r') (v : BitVec 64) (s : State) :
    (s.set r' v).reg r = s.reg r := by
  unfold set
  exact Function.update_of_ne h ..

/-- The stack pointer as an address. -/
def top (s : State) : Nat := (s.reg .rsp).toNat

def push (v : BitVec 64) (s : State) : State :=
  let rsp := s.reg .rsp - 8
  { s.set .rsp rsp with mem := s.mem.write rsp.toNat 8 v }

/-- Push some words, one after the other. -/
def pushes (vs : List (BitVec 64)) (s : State) : State := vs.foldl (fun s v => s.push v) s

/-- The word at the top of the stack. -/
def peek (s : State) : BitVec 64 := s.mem.read s.top 8

/-- Drop the word at the top of the stack. -/
def drop (s : State) : State := s.set .rsp (s.reg .rsp + 8)

/-- Go on at an address. -/
def goto (a : BitVec 64) (s : State) : State := { s with rip := a }

end State

/-! ## Flags -/

abbrev zeroFlag : Nat := 6

abbrev signFlag : Nat := 7

abbrev interruptFlag : Nat := 9

abbrev overflowFlag : Nat := 11

def setFlag (i : Nat) (b : Bool) (f : BitVec 64) : BitVec 64 :=
  if b then f ||| 1#64 <<< i else f &&& ~~~(1#64 <<< i)

/-- The flags after `a` was compared to `b`. -/
def compareFlags (a b : BitVec 32) (f : BitVec 64) : BitVec 64 :=
  setFlag zeroFlag (a == b) (setFlag signFlag (a - b).msb
    (setFlag overflowFlag (a.msb != b.msb && (a - b).msb != a.msb) f))

/-- The condition of `jle`. -/
def lessOrEqual (f : BitVec 64) : Bool :=
  f.getLsbD zeroFlag || f.getLsbD signFlag != f.getLsbD overflowFlag

/-! ## Instructions -/

/-- Instructions after which the next one comes. -/
inductive Op where
  | push (r : Reg)
  | pushImm (v : BitVec 64)
  | pushf
  | pop (r : Reg)
  | mov (d r : Reg)
  | mov32 (d r : Reg)
  /-- Of 64 bits, or of 32 with zeros above. -/
  | movImm (d : Reg) (v : BitVec 64)
  | movImm16 (d : Reg) (v : BitVec 16)
  | movImm8 (d : Reg) (v : BitVec 8)
  /-- To a register of 32 bits, with zeros above. -/
  | readSeg (d : Reg) (x : Seg)
  | readSeg16 (d : Reg) (x : Seg)
  | loadSeg (x : Seg) (r : Reg)
  | load (d base : Reg) (disp : BitVec 64)
  | loadAt (d : Reg) (a : BitVec 64)
  | storeAt (a : BitVec 64) (r : Reg)
  | loadAt32 (d : Reg) (a : BitVec 64)
  | storeAt32 (a : BitVec 64) (r : Reg)
  | storeAt16 (a : BitVec 64) (r : Reg)
  /-- Store the low bytes of `rax` at `rdi`, which goes on behind them. -/
  | stos (n : Nat)
  /-- Copy `rcx` bytes from `rsi` to `rdi`, the first one first. -/
  | repMovsb
  | addImm (d : Reg) (v : BitVec 64)
  | dec32 (d : Reg)
  | shlImm (d : Reg) (n : Nat)
  | shrImm (d : Reg) (n : Nat)
  | cmpImm32 (r : Reg) (v : BitVec 32)
  | cmp32 (r r' : Reg)
  | cli
  | sti
  | wrmsr
  /-- Limit and base from memory. -/
  | lgdt (a : BitVec 64)
  | ltr (r : Reg)

/-- Copy bytes one after the other. -/
def copyUp : (n src dst : Nat) → ByteMem → ByteMem
  | 0, _, _, m => m
  | n + 1, src, dst, m => copyUp n (src + 1) (dst + 1) (Function.update m dst (m src))

def Op.apply (o : Op) (s : State) : State :=
  match o with
  | .push r => s.push (s.reg r)
  | .pushImm v => s.push v
  | .pushf => s.push s.flags
  | .pop r => s.drop.set r s.peek
  | .mov d r => s.set d (s.reg r)
  | .mov32 d r => s.set d (((s.reg r).setWidth 32).setWidth 64)
  | .movImm d v => s.set d v
  | .movImm16 d v => s.set d ((s.reg d).extractLsb' 16 48 ++ v)
  | .movImm8 d v => s.set d ((s.reg d).extractLsb' 8 56 ++ v)
  | .readSeg d x => s.set d ((s.seg x).setWidth 64)
  | .readSeg16 d x => s.set d ((s.reg d).extractLsb' 16 48 ++ s.seg x)
  | .loadSeg x r => s.setSeg x ((s.reg r).setWidth 16)
  | .load d base disp => s.set d (s.mem.read (s.reg base + disp).toNat 8)
  | .loadAt d a => s.set d (s.mem.read a.toNat 8)
  | .storeAt a r => { s with mem := s.mem.write a.toNat 8 (s.reg r) }
  | .loadAt32 d a => s.set d ((s.mem.read a.toNat 4).setWidth 64)
  | .storeAt32 a r => { s with mem := s.mem.write a.toNat 4 ((s.reg r).setWidth 32) }
  | .storeAt16 a r => { s with mem := s.mem.write a.toNat 2 ((s.reg r).setWidth 16) }
  | .stos n =>
      { s.set .rdi (s.reg .rdi + BitVec.ofNat 64 n) with
        mem := s.mem.write (s.reg .rdi).toNat n ((s.reg .rax).setWidth (8 * n)) }
  | .repMovsb =>
      let n := (s.reg .rcx).toNat
      { ((s.set .rsi (s.reg .rsi + s.reg .rcx)).set .rdi (s.reg .rdi + s.reg .rcx)).set .rcx 0 with
        mem := copyUp n (s.reg .rsi).toNat (s.reg .rdi).toNat s.mem }
  | .addImm d v => s.set d (s.reg d + v)
  | .dec32 d => s.set d (((s.reg d).setWidth 32 - 1).setWidth 64)
  | .shlImm d n => s.set d (s.reg d <<< n)
  | .shrImm d n => s.set d (s.reg d >>> n)
  | .cmpImm32 r v => { s with flags := compareFlags ((s.reg r).setWidth 32) v s.flags }
  | .cmp32 r r' =>
      { s with flags := compareFlags ((s.reg r).setWidth 32) ((s.reg r').setWidth 32) s.flags }
  | .cli => { s with flags := setFlag interruptFlag false s.flags }
  | .sti => { s with flags := setFlag interruptFlag true s.flags }
  | .wrmsr =>
      let value := (s.reg .rdx).setWidth 32 ++ (s.reg .rax).setWidth 32
      { s with ctl := { s.ctl with
        msr := Function.update s.ctl.msr ((s.reg .rcx).setWidth 32) value } }
  | .lgdt a =>
      let gdtr := (s.mem.read a.toNat 2, s.mem.read (a.toNat + 2) 8)
      { s with ctl := { s.ctl with gdtr := gdtr } }
  | .ltr r => { s with ctl := { s.ctl with tr := (s.reg r).setWidth 16 } }

/-- One after the other. -/
def applyAll (ops : List Op) (s : State) : State := ops.foldl (fun s o => o.apply s) s

inductive Instr where
  | op (o : Op)
  /-- The byte in `al` to a port. -/
  | out (port : BitVec 8)
  | jmp (target : BitVec 64)
  | jle (target : BitVec 64)
  | jne (target : BitVec 64)
  | call (target : BitVec 64)
  | callReg (r : Reg)
  | callMem (base : Reg) (disp : BitVec 64)
  | ret
  /-- To another code segment. -/
  | retf
  | iretq
  | syscall
  | sysret
  /-- Wait for an interrupt. -/
  | hlt

/-- Instructions in a row. -/
abbrev straight (ops : List Op) : List Instr := ops.map .op

abbrev starMsr : BitVec 32 := 0xc0000081

abbrev lstarMsr : BitVec 32 := 0xc0000082

abbrev fmaskMsr : BitVec 32 := 0xc0000084

namespace State

def callTo (target next : BitVec 64) (s : State) : State := (s.push next).goto target

/-- The word at the top of the stack is where to go on. -/
def ret (s : State) : State := s.drop.goto s.peek

def retf (s : State) : State :=
  (s.drop.drop.setSeg .cs (s.drop.peek.setWidth 16)).goto s.peek

def iretq (s : State) : State :=
  let word := fun i => s.mem.read (s.top + 8 * i) 8
  { s with
    rip := word 0
    seg := Function.update (Function.update s.seg .cs ((word 1).setWidth 16)) .ss
      ((word 4).setWidth 16)
    flags := word 2
    reg := Function.update s.reg .rsp (word 3) }

def syscall (next : BitVec 64) (s : State) : State :=
  let selector := (s.ctl.msr starMsr).extractLsb' 32 16
  { s with
    reg := Function.update (Function.update s.reg .rcx next) .r11 s.flags
    seg := Function.update (Function.update s.seg .cs (selector &&& 0xfffc)) .ss (selector + 8)
    rip := s.ctl.msr lstarMsr
    flags := s.flags &&& ~~~s.ctl.msr fmaskMsr }

/-- With an operand of 64 bits. -/
def sysret (s : State) : State :=
  let selector := (s.ctl.msr starMsr).extractLsb' 48 16
  { s with
    seg := Function.update (Function.update s.seg .cs ((selector + 16) ||| 3)) .ss
      ((selector + 8) ||| 3)
    rip := s.reg .rcx
    flags := s.reg .r11 &&& 0x3c7fd7 ||| 2 }

end State

/-! ## Interrupts -/

/-- An entry of the interrupt descriptor table. -/
structure Gate where
  offset : BitVec 64
  selector : BitVec 16
  ist : BitVec 8
  typeAttr : BitVec 8
  deriving DecidableEq

/-- The entry at an address. -/
def Gate.read (m : ByteMem) (a : Nat) : Gate where
  offset := m.read (a + 8) 4 ++ m.read (a + 6) 2 ++ m.read a 2
  selector := m.read (a + 2) 2
  ist := m.read (a + 4) 1
  typeAttr := m.read (a + 5) 1

/-- Store an entry at an address, the lowest part first. -/
def Gate.write (g : Gate) (a : Nat) (m : ByteMem) : ByteMem :=
  let m := m.write a 2 (g.offset.setWidth 16)
  let m := m.write (a + 2) 2 g.selector
  let m := m.write (a + 4) 1 g.ist
  let m := m.write (a + 5) 1 g.typeAttr
  let m := m.write (a + 6) 2 (g.offset.extractLsb' 16 16)
  let m := m.write (a + 8) 4 (g.offset.extractLsb' 32 32)
  m.write (a + 12) 4 0

/-- The exceptions that come with an error code. -/
def errorVectors : List Nat := [8, 10, 11, 12, 13, 14, 17, 21]

namespace State

/-- Not at level 0. -/
def Outer (s : State) : Prop := s.seg .cs &&& 3 ≠ 0

instance (s : State) : Decidable s.Outer := inferInstanceAs (Decidable (_ ≠ _))

/-- The stack of an interrupt handler at level 0; `rsp0` is that of the task state segment. -/
def interruptStack (rsp0 : BitVec 64) (s : State) : BitVec 64 :=
  (if s.Outer then rsp0 else s.reg .rsp) &&& ~~~15

/-- What an interrupt handler finds as the stack segment. -/
def interruptSegment (s : State) : BitVec 16 := if s.Outer then 0 else s.seg .ss

/-- Through an interrupt gate to level 0, up to the words that are pushed. Interrupts are disabled
and so are traces, nested tasks, resumption and the virtual mode. -/
def enterGate (gate : Gate) (rsp0 : BitVec 64) (s : State) : State :=
  { s with
    reg := Function.update s.reg .rsp (s.interruptStack rsp0)
    seg := Function.update (Function.update s.seg .ss s.interruptSegment) .cs gate.selector
    rip := gate.offset
    flags := s.flags &&& ~~~0x34300 }

/-- An interrupt, with an error code or without one. -/
def interrupt (gate : Gate) (rsp0 : BitVec 64) (code : Option (BitVec 64)) (s : State) : State :=
  let frame := ((((s.enterGate gate rsp0).push ((s.seg .ss).setWidth 64)).push
    (s.reg .rsp)).push s.flags).push ((s.seg .cs).setWidth 64) |>.push s.rip
  match code with
  | none => frame
  | some e => frame.push e

end State

section

variable {W : Type} (devices : BitVec 8 → BitVec 8 → W → W)

/-- An instruction in front of the one at `next`. -/
def Instr.exec (next : BitVec 64) (s : State) (w : W) : Instr → Option (State × W)
  | .op o => some ((o.apply s).goto next, w)
  | .out port => some (s.goto next, devices port ((s.reg .rax).setWidth 8) w)
  | .jmp target => some (s.goto target, w)
  | .jle target => some (s.goto (if lessOrEqual s.flags then target else next), w)
  | .jne target => some (s.goto (if s.flags.getLsbD zeroFlag then next else target), w)
  | .call target => some (s.callTo target next, w)
  | .callReg r => some (s.callTo (s.reg r) next, w)
  | .callMem base disp => some (s.callTo (s.mem.read (s.reg base + disp).toNat 8) next, w)
  | .ret => some (s.ret, w)
  | .retf => some (s.retf, w)
  | .iretq => some (s.iretq, w)
  | .syscall => some (s.syscall next, w)
  | .sysret => some (s.sysret, w)
  | .hlt => none

end

/-! ## Programs -/

/-- The registers that a function has to leave as they were. -/
def calleeSaved : List Reg := [.rbx, .rbp, .r12, .r13, .r14, .r15]

/-- A compiled function may be entered: the stack is aligned as the calling convention says. -/
def State.Aligned (s : State) : Prop := (s.top + 8) % 16 = 0

instance (s : State) : Decidable s.Aligned := inferInstanceAs (Decidable (_ = _))

/-- A compiled function that starts in `s` returns in `s'`. It uses at most `depth` bytes of the
stack. -/
structure Returns (depth : Nat) (s s' : State) : Prop where
  rip : s'.rip = s.peek
  rsp : s'.reg .rsp = s.reg .rsp + 8
  saved : ∀ r ∈ calleeSaved, s'.reg r = s.reg r
  seg : s'.seg = s.seg
  ctl : s'.ctl = s.ctl
  mem : s.mem.SameBut (s.top - depth) s.top s'.mem

theorem Returns.ret (depth : Nat) (s : State) : Returns depth s s.ret := by
  constructor
  · rfl
  · exact State.set_self .rsp (s.reg .rsp + 8) s
  · intro r hr
    refine State.set_of_ne ?_ (s.reg .rsp + 8) s
    rintro rfl
    revert hr
    decide
  · rfl
  · rfl
  · exact fun _ _ => rfl

/-- A program in memory, what its outputs do, and the compiled functions by their addresses: what
each of them does to the world, unless it does not return. -/
structure System (L W : Type) where
  code : L → List Instr
  addr : L → Nat → BitVec 64
  fetch : BitVec 64 → Option (Instr × BitVec 64)
  loaded : ∀ l i instr, (code l)[i]? = some instr → fetch (addr l i) = some (instr, addr l (i + 1))
  devices : BitVec 8 → BitVec 8 → W → W
  compiled : BitVec 64 → Option (State → W → Option W)
  apart : ∀ a, (compiled a).isSome → fetch a = none
  depth : Nat

namespace System

variable {L W : Type} (sys : System L W)

inductive Step : State × W → State × W → Prop where
  | instr {s : State} {w : W} {i : Instr} {next : BitVec 64} {t : State × W} :
      sys.fetch s.rip = some (i, next) → i.exec sys.devices next s w = some t → Step (s, w) t
  | compiled {s s' : State} {w w' : W} {f : State → W → Option W} :
      sys.compiled s.rip = some f → f s w = some w' → Returns sys.depth s s' → Step (s, w) (s', w')

end System

/-! ## Blocks -/

/-- No instruction in the middle of a block looks at the address. -/
theorem Op.apply_goto (o : Op) (a : BitVec 64) (s : State) :
    o.apply (s.goto a) = (o.apply s).goto a := by
  cases o <;> rfl

@[simp] theorem applyAll_nil (s : State) : applyAll [] s = s := rfl

@[simp] theorem applyAll_cons (o : Op) (ops : List Op) (s : State) :
    applyAll (o :: ops) s = applyAll ops (o.apply s) := rfl

@[simp] theorem applyAll_append (ops ops' : List Op) (s : State) :
    applyAll (ops ++ ops') s = applyAll ops' (applyAll ops s) := List.foldl_append ..

@[simp] theorem State.goto_mem (a : BitVec 64) (s : State) : (s.goto a).mem = s.mem := rfl

@[simp] theorem State.goto_reg (a : BitVec 64) (s : State) : (s.goto a).reg = s.reg := rfl

@[simp] theorem State.goto_seg (a : BitVec 64) (s : State) : (s.goto a).seg = s.seg := rfl

@[simp] theorem State.goto_rip (a : BitVec 64) (s : State) : (s.goto a).rip = a := rfl

@[simp] theorem State.goto_goto (a b : BitVec 64) (s : State) : (s.goto a).goto b = s.goto b := rfl

theorem applyAll_goto (ops : List Op) (a : BitVec 64) (s : State) :
    applyAll ops (s.goto a) = (applyAll ops s).goto a := by
  induction ops generalizing s with
  | nil => rfl
  | cons o ops ih => rw [applyAll_cons, Op.apply_goto, ih, applyAll_cons]

namespace System

open Transition

variable {L W : Type} {sys : System L W} {Q : State × W → Prop} {s : State} {w : W} {l : L}

/-- An instruction. -/
theorem leads_instr {i : Nat} {instr : Instr} {t : State × W} (hrip : s.rip = sys.addr l i)
    (hcode : (sys.code l)[i]? = some instr)
    (hexec : instr.exec sys.devices (sys.addr l (i + 1)) s w = some t)
    (h : Leads sys.Step Q t) : Leads sys.Step Q (s, w) := by
  have hfetch : sys.fetch s.rip = some (instr, sys.addr l (i + 1)) := by
    rw [hrip]
    exact sys.loaded l i instr hcode
  refine Leads.one (.instr hfetch hexec) ?_ h
  intro t' hstep
  cases hstep with
  | instr hfetch' hexec' =>
      cases hfetch.symm.trans hfetch'
      exact Option.some.inj (hexec'.symm.trans hexec)
  | compiled hcompiled _ _ =>
      cases (sys.apart _ (Option.isSome_of_eq_some hcompiled)).symm.trans hfetch

/-- A compiled function that returns. -/
theorem leads_compiled {f : State → W → Option W} {w' : W} (hcompiled : sys.compiled s.rip = some f)
    (hf : f s w = some w') (h : ∀ s', Returns sys.depth s s' → Leads sys.Step Q (s', w')) :
    Leads sys.Step Q (s, w) := by
  refine .next ⟨_, .compiled hcompiled hf (Returns.ret sys.depth s)⟩ ?_
  intro t hstep
  cases hstep with
  | instr hfetch _ =>
      cases (sys.apart _ (Option.isSome_of_eq_some hcompiled)).symm.trans hfetch
  | compiled hcompiled' hf' hreturns =>
      cases hcompiled.symm.trans hcompiled'
      cases hf.symm.trans hf'
      exact h _ hreturns

/-- Instructions in a row, from the one with number `i` on. -/
theorem leads_ops (before : List Instr) (ops : List Op) {i : Nat} {after : List Instr}
    (hcode : sys.code l = before ++ straight ops ++ after) (hi : before.length = i)
    (hrip : s.rip = sys.addr l i)
    (h : Leads sys.Step Q ((applyAll ops s).goto (sys.addr l (i + ops.length)), w)) :
    Leads sys.Step Q (s, w) := by
  induction ops generalizing s i before with
  | nil =>
      rw [applyAll_nil, List.length_nil, Nat.add_zero, ← hrip] at h
      exact h
  | cons o ops ih =>
      have hget : (sys.code l)[i]? = some (.op o) := by
        rw [hcode, List.append_assoc, List.getElem?_append_right hi.le, hi, Nat.sub_self]
        rfl
      refine leads_instr hrip hget rfl ?_
      refine ih (before ++ [.op o]) (i := i + 1) ?_ ?_ rfl ?_
      · rw [hcode, straight, List.map_cons, List.append_assoc before [_], List.singleton_append,
          List.append_assoc before]
      · rw [List.length_append, List.length_singleton, hi]
      · rw [List.length_cons, applyAll_cons] at h
        rw [applyAll_goto, State.goto_goto, Nat.add_assoc, Nat.add_comm 1]
        exact h

end System

/-! ## Comparisons -/

theorem getLsbD_setFlag {i j : Nat} (hi : i < 64) (hj : j < 64) (b : Bool) (f : BitVec 64) :
    (setFlag i b f).getLsbD j = if j = i then b else f.getLsbD j := by
  have hone : (1#64 <<< i).getLsbD j = decide (j = i) := by
    rw [BitVec.getLsbD_shiftLeft, BitVec.getLsbD_one]
    by_cases h : j = i
    · simp [h, hi]
    · have hdiff : j < i ∨ ¬j - i = 0 := by omega
      obtain hlt | hne := hdiff
      · simp [h, hlt]
      · simp [h, hne]
  have hset : (f ||| 1#64 <<< i).getLsbD j = (f.getLsbD j || decide (j = i)) := by
    rw [BitVec.getLsbD_or, hone]
  have hclear : (f &&& ~~~(1#64 <<< i)).getLsbD j = (f.getLsbD j && !decide (j = i)) := by
    rw [BitVec.getLsbD_and, BitVec.getLsbD_not, hone, decide_eq_true hj, Bool.true_and]
  cases b with
  | false =>
      refine hclear.trans ?_
      by_cases h : j = i <;> simp [h]
  | true =>
      refine hset.trans ?_
      by_cases h : j = i <;> simp [h]

/-- The other flags are as before. -/
theorem getLsbD_compareFlags {i : Nat} (hi : i < 64) (hzero : i ≠ zeroFlag) (hsign : i ≠ signFlag)
    (hover : i ≠ overflowFlag) {a b : BitVec 32} {f : BitVec 64} :
    (compareFlags a b f).getLsbD i = f.getLsbD i := by
  unfold compareFlags
  rw [getLsbD_setFlag (by decide) hi, if_neg hzero, getLsbD_setFlag (by decide) hi, if_neg hsign,
    getLsbD_setFlag (by decide) hi, if_neg hover]

/-- The jump is taken if the first number is at most the second, both with their signs: the
difference is negative, or it is not and overflowed. -/
theorem lessOrEqual_compareFlags (a b : BitVec 32) (f : BitVec 64) :
    lessOrEqual (compareFlags a b f) = a.sle b := by
  have ha := BitVec.le_toInt a
  have hb := BitVec.le_toInt b
  have ha' := BitVec.toInt_lt (x := a)
  have hb' := BitVec.toInt_lt (x := b)
  have hsub := BitVec.toInt_sub (x := a) (y := b)
  have heq : (a == b) = decide (a.toInt = b.toInt) := by
    rw [Bool.beq_eq_decide_eq]
    exact decide_eq_decide.mpr BitVec.toInt_inj.symm
  unfold lessOrEqual compareFlags
  simp only [getLsbD_setFlag, zeroFlag, signFlag, overflowFlag, Nat.reduceLT, Nat.reduceEqDiff,
    if_true, if_false]
  rw [BitVec.sle_eq_decide, heq, BitVec.msb_eq_toInt, BitVec.msb_eq_toInt, BitVec.msb_eq_toInt]
  rw [Int.bmod_def] at hsub
  generalize (a - b).toInt = d at *
  generalize a.toInt = x at *
  generalize b.toInt = y at *
  by_cases hx : x < 0 <;> by_cases hy : y < 0 <;> by_cases hd : d < 0 <;>
    simp only [hx, hy, hd, decide_true, decide_false, bne_self_eq_false, Bool.true_bne,
      Bool.false_bne, Bool.not_false, Bool.and_true, Bool.and_false, Bool.or_true,
      Bool.or_false, decide_eq_decide] <;>
    (try rw [eq_comm, decide_eq_true_eq]) <;> split at hsub <;> omega

/-- The jump is not taken if the numbers are the same. -/
theorem zeroFlag_compareFlags (a b : BitVec 32) (f : BitVec 64) :
    (compareFlags a b f).getLsbD zeroFlag = (a == b) := by
  unfold compareFlags
  rw [getLsbD_setFlag (by decide) (by decide), if_pos rfl]

/-! ## Gates in memory -/

namespace Gate

theorem append_parts (v : BitVec 64) :
    (v.extractLsb' 32 32 ++ v.extractLsb' 16 16 ++ v.setWidth 16 : BitVec 64) = v := by
  apply BitVec.eq_of_getLsbD_eq
  intro i hi
  simp only [BitVec.getLsbD_append, BitVec.getLsbD_extractLsb', BitVec.getLsbD_setWidth]
  by_cases hlow : i < 16
  · simp [hlow]
  · by_cases hmid : i - 16 < 16
    · simp [hlow, hmid, show 16 + (i - 16) = i by omega]
    · simp [hlow, hmid, show i - 16 - 16 < 32 by omega, show 32 + (i - 16 - 16) = i by omega]

theorem read_write (g : Gate) (a : Nat) (m : ByteMem) : read (g.write a m) a = g := by
  have hlow : (g.write a m).read a 2 = g.offset.setWidth 16 := by
    unfold write
    simp (disch := omega) only [ByteMem.read_write_of_disjoint, ByteMem.read_write_self]
  have hselector : (g.write a m).read (a + 2) 2 = g.selector := by
    unfold write
    simp (disch := omega) only [ByteMem.read_write_of_disjoint, ByteMem.read_write_self]
  have hist : (g.write a m).read (a + 4) 1 = g.ist := by
    unfold write
    simp (disch := omega) only [ByteMem.read_write_of_disjoint, ByteMem.read_write_self]
  have htype : (g.write a m).read (a + 5) 1 = g.typeAttr := by
    unfold write
    simp (disch := omega) only [ByteMem.read_write_of_disjoint, ByteMem.read_write_self]
  have hmid : (g.write a m).read (a + 6) 2 = g.offset.extractLsb' 16 16 := by
    unfold write
    simp (disch := omega) only [ByteMem.read_write_of_disjoint, ByteMem.read_write_self]
  have hhigh : (g.write a m).read (a + 8) 4 = g.offset.extractLsb' 32 32 := by
    unfold write
    simp (disch := omega) only [ByteMem.read_write_of_disjoint, ByteMem.read_write_self]
  unfold read
  rw [hlow, hselector, hist, htype, hmid, hhigh, append_parts]

theorem write_sameBut (g : Gate) (a : Nat) (m : ByteMem) :
    m.SameBut a (a + 16) (g.write a m) := by
  intro x hx
  unfold write
  rw [ByteMem.write_apply_of_not_mem (by omega), ByteMem.write_apply_of_not_mem (by omega),
    ByteMem.write_apply_of_not_mem (by omega), ByteMem.write_apply_of_not_mem (by omega),
    ByteMem.write_apply_of_not_mem (by omega), ByteMem.write_apply_of_not_mem (by omega),
    ByteMem.write_apply_of_not_mem (by omega)]

theorem read_congr {m m' : ByteMem} {a : Nat} (h : ∀ x, a ≤ x → x < a + 16 → m' x = m x) :
    read m' a = read m a := by
  have hread : ∀ x n, a ≤ x → x + n ≤ a + 16 → m'.read x n = m.read x n := by
    intro x n hlo hhi
    apply ByteMem.read_congr
    intro y hy hy'
    exact h y (by omega) (by omega)
  unfold read
  rw [hread (a + 8) 4, hread (a + 6) 2, hread a 2, hread (a + 2) 2, hread (a + 4) 1,
    hread (a + 5) 1] <;> omega

end Gate

/-! ## Saving and restoring -/

namespace State

theorem push_rsp (v : BitVec 64) (s : State) : (s.push v).reg .rsp = s.reg .rsp - 8 :=
  set_self .rsp (s.reg .rsp - 8) s

theorem drop_rsp (s : State) : s.drop.reg .rsp = s.reg .rsp + 8 := set_self .rsp (s.reg .rsp + 8) s

theorem push_reg {r : Reg} (hr : r ≠ .rsp) (v : BitVec 64) (s : State) :
    (s.push v).reg r = s.reg r := set_of_ne hr (s.reg .rsp - 8) s

theorem top_push {s : State} (h : 8 ≤ s.top) (v : BitVec 64) : (s.push v).top = s.top - 8 := by
  unfold top at *
  rw [push_rsp]
  bv_omega

theorem top_drop {s : State} (h : s.top + 8 < 2 ^ 64) : s.drop.top = s.top + 8 := by
  unfold top at *
  rw [drop_rsp]
  bv_omega

theorem top_set {r : Reg} (h : r ≠ .rsp) (v : BitVec 64) (s : State) : (s.set r v).top = s.top :=
  congrArg BitVec.toNat (set_of_ne h.symm v s)

/-- The five words that `iretq` takes. -/
theorem iretq_eq {s : State} {rip cs flags rsp ss : BitVec 64}
    (h : s.mem.Holds s.top [rip, cs, flags, rsp, ss]) :
    s.iretq = { s.set .rsp rsp with
      rip := rip
      seg := Function.update (Function.update s.seg .cs (cs.setWidth 16)) .ss (ss.setWidth 16)
      flags := flags } := by
  simp only [ByteMem.holds_cons, ByteMem.holds_nil, and_true, Nat.add_assoc, Nat.reduceAdd] at h
  obtain ⟨hrip, hcs, hflags, hrsp, hss⟩ := h
  simp only [iretq, set, Nat.mul_zero, Nat.add_zero, Nat.reduceMul, hrip, hcs, hflags, hrsp, hss]

end State

/-- The words were pushed between `s` and `s'`. Nothing below `low` was used. -/
structure Pushed (low : Nat) (s s' : State) (ws : List (BitVec 64)) : Prop where
  low_le : low ≤ s'.top
  top : s'.top + 8 * ws.length = s.top
  holds : s'.mem.Holds s'.top ws
  mem : s.mem.SameBut low s.top s'.mem
  seg : s'.seg = s.seg
  ctl : s'.ctl = s.ctl

namespace Pushed

variable {low : Nat} {s s' : State} {ws : List (BitVec 64)}

theorem refl (h : low ≤ s.top) : Pushed low s s [] :=
  ⟨h, rfl, trivial, ByteMem.SameBut.refl s.mem low s.top, rfl, rfl⟩

theorem push (h : Pushed low s s' ws) (room : low + 8 ≤ s'.top) (v : BitVec 64) :
    Pushed low s (s'.push v) (v :: ws) := by
  have htop := State.top_push (Nat.le_of_add_left_le room) v
  have hmem : (s'.push v).mem = s'.mem.write (s'.push v).top 8 v := by
    unfold State.top
    rw [State.push_rsp]
    rfl
  have hs := h.top
  constructor
  · omega
  · rw [htop, List.length_cons]
    omega
  · rw [hmem, htop]
    exact h.holds.push (by omega) v
  · rw [hmem, htop]
    have hwrite := ByteMem.SameBut.write s'.mem (s'.top - 8) 8 v
    exact h.mem.trans (hwrite.mono (by omega) (by omega))
  · exact h.seg
  · exact h.ctl

theorem pushes (h : Pushed low s s' ws) (vs : List (BitVec 64))
    (room : low + 8 * vs.length ≤ s'.top) : Pushed low s (s'.pushes vs) (vs.reverse ++ ws) := by
  induction vs generalizing s' ws with
  | nil => exact h
  | cons v vs ih =>
      rw [List.length_cons] at room
      rw [List.reverse_cons, List.append_assoc]
      exact ih (h.push (by omega) v) (by rw [State.top_push (by omega)]; omega)

/-- What else happens to the state does not matter. -/
theorem congr {t : State} (h : Pushed low s s' ws) (hrsp : t.reg .rsp = s'.reg .rsp)
    (hmem : t.mem = s'.mem) (hseg : t.seg = s'.seg) (hctl : t.ctl = s'.ctl) :
    Pushed low s t ws := by
  have htop : t.top = s'.top := congrArg BitVec.toNat hrsp
  exact ⟨htop ▸ h.low_le, htop ▸ h.top, htop ▸ hmem ▸ h.holds, hmem ▸ h.mem, hseg.trans h.seg,
    hctl.trans h.ctl⟩

theorem set (h : Pushed low s s' ws) {r : Reg} (hr : r ≠ .rsp) (v : BitVec 64) :
    Pushed low s (s'.set r v) ws :=
  h.congr (State.set_of_ne hr.symm v s') rfl rfl rfl

/-- A compiled function that was called returns to where it was called from. -/
theorem returns {next : BitVec 64} {t : State} {depth : Nat} (h : Pushed low s s' (next :: ws))
    (hreturns : Returns depth s' t) (room : low + depth ≤ s'.top) :
    Pushed low s t ws ∧ t.rip = next := by
  have hs := h.top
  rw [List.length_cons] at hs
  have hlt : s.top < 2 ^ 64 := (s.reg .rsp).isLt
  have htop : t.top = s'.top + 8 := by
    have hdrop := State.top_drop (s := s') (by omega)
    unfold State.top at *
    rw [hreturns.rsp, ← hdrop, State.drop_rsp]
  refine ⟨?_, hreturns.rip.trans h.holds.1⟩
  constructor
  · have hle := h.low_le
    omega
  · omega
  · rw [htop]
    exact h.holds.2.congr hreturns.mem (.inr (by omega))
  · exact h.mem.trans (hreturns.mem.mono (by omega) (by omega))
  · exact hreturns.seg.trans h.seg
  · exact hreturns.ctl.trans h.ctl

end Pushed

theorem Pushed.interrupt {low : Nat} (gate : Gate) (rsp0 : BitVec 64) (code : Option (BitVec 64))
    (s : State) (room : low + 48 ≤ (s.enterGate gate rsp0).top) :
    Pushed low (s.enterGate gate rsp0) (s.interrupt gate rsp0 code) (code.toList ++
      [s.rip, (s.seg .cs).setWidth 64, s.flags, s.reg .rsp, (s.seg .ss).setWidth 64]) := by
  have h₀ : Pushed low (s.enterGate gate rsp0) (s.enterGate gate rsp0) [] :=
    Pushed.refl (by omega)
  have hframe := h₀.pushes [(s.seg .ss).setWidth 64, s.reg .rsp, s.flags,
    (s.seg .cs).setWidth 64, s.rip] (by simp only [List.length_cons, List.length_nil]; omega)
  cases code with
  | none => exact hframe
  | some e =>
      have htop := hframe.top
      simp only [List.append_nil, List.length_reverse, List.length_cons, List.length_nil] at htop
      exact hframe.push (by omega) e

variable {low : Nat} {s s₀ : State} {ws rest : List (BitVec 64)}

/-- Registers are pushed as they were before the first one. -/
theorem applyAll_push (rs : List Reg) (hrs : Reg.rsp ∉ rs) (s : State) :
    applyAll (rs.map .push) s = s.pushes (rs.map s.reg) := by
  induction rs generalizing s with
  | nil => rfl
  | cons r rs ih =>
      obtain ⟨-, hrs⟩ := not_or.mp (mt List.mem_cons.mpr hrs)
      have hsame : rs.map (s.push (s.reg r)).reg = rs.map s.reg := by
        apply List.map_congr_left
        intro r' hr'
        refine State.push_reg ?_ (s.reg r) s
        rintro rfl
        exact hrs hr'
      rw [List.map_cons, applyAll_cons, ih hrs, List.map_cons]
      exact congrArg ((s.push (s.reg r)).pushes ·) hsame

/-- Push some segment registers by way of another register. -/
def pushSegs (d : Reg) (xs : List Seg) : List Op := xs.flatMap fun x => [.readSeg d x, .push d]

theorem Pushed.pushSegs {d : Reg} (hd : d ≠ .rsp) (xs : List Seg) (h : Pushed low s₀ s ws)
    (room : low + 8 * xs.length ≤ s.top) :
    Pushed low s₀ (applyAll (pushSegs d xs) s)
      (xs.reverse.map (fun x => (s₀.seg x).setWidth 64) ++ ws) := by
  induction xs generalizing s ws with
  | nil => exact h
  | cons x xs ih =>
      rw [List.length_cons] at room
      have hset := h.set hd ((s.seg x).setWidth 64)
      have htop := State.top_set hd ((s.seg x).setWidth 64) s
      have hpush := hset.push (by omega) ((s.set d ((s.seg x).setWidth 64)).reg d)
      have hrest := ih hpush (by rw [State.top_push (by omega)]; omega)
      rw [State.set_self, h.seg] at hrest
      rw [List.reverse_cons, List.map_append, List.append_assoc]
      simp only [X86.pushSegs, List.flatMap_cons, applyAll_append, applyAll_cons, applyAll_nil,
        Op.apply, State.set_self, h.seg]
      exact hrest

/-- What is on the stack is taken back: the registers in `rs` get the values `f`. -/
theorem pops (rs : List Reg) (hrs : Reg.rsp ∉ rs) {f : Reg → BitVec 64}
    (h : s.mem.Holds s.top (rs.map f ++ rest)) (room : s.top + 8 * rs.length < 2 ^ 64) :
    let s' := applyAll (rs.map .pop) s
    (∀ r ∈ rs, s'.reg r = f r) ∧ (∀ r ∉ rs, r ≠ .rsp → s'.reg r = s.reg r) ∧
      s'.top = s.top + 8 * rs.length ∧ s'.mem = s.mem ∧ s'.seg = s.seg ∧ s'.ctl = s.ctl := by
  induction rs generalizing s with
  | nil => exact ⟨fun r hr => absurd hr List.not_mem_nil, fun _ _ _ => rfl, rfl, rfl, rfl, rfl⟩
  | cons r rs ih =>
      rw [List.length_cons] at room
      obtain ⟨hr, hrs⟩ := not_or.mp (mt List.mem_cons.mpr hrs)
      have htop : (s.drop.set r s.peek).top = s.top + 8 := by
        rw [State.top_set (Ne.symm hr), State.top_drop (by omega)]
      have hholds := h.2
      rw [← htop] at hholds
      obtain ⟨hregs, hothers, htop', hmem, hseg, hctl⟩ :=
        ih (s := s.drop.set r s.peek) hrs hholds (by omega)
      have hset : (s.drop.set r s.peek).reg r = f r := by
        rw [State.set_self]
        exact h.1
      refine ⟨?_, ?_, ?_, hmem, hseg, hctl⟩
      · intro r' hr'
        by_cases hin : r' ∈ rs
        · exact hregs r' hin
        · obtain rfl := (List.mem_cons.mp hr').resolve_right hin
          exact (hothers r' hin (Ne.symm hr)).trans hset
      · intro r' hr' hne
        obtain ⟨hne', hin⟩ := not_or.mp (mt List.mem_cons.mpr hr')
        refine (hothers r' hin hne).trans ?_
        exact (State.set_of_ne hne' ..).trans (State.set_of_ne hne ..)
      · rw [List.length_cons]
        refine htop'.trans ?_
        omega

/-- Load some segment registers from the stack by way of another register. -/
def popSegs (d : Reg) (xs : List Seg) : List Op := xs.flatMap fun x => [.pop d, .loadSeg x d]

theorem popSegs_spec {d : Reg} (hd : d ≠ .rsp) (xs : List Seg) {g : Seg → BitVec 64}
    (h : s.mem.Holds s.top (xs.map g ++ rest)) (room : s.top + 8 * xs.length < 2 ^ 64) :
    let s' := applyAll (popSegs d xs) s
    (∀ x ∈ xs, s'.seg x = (g x).setWidth 16) ∧ (∀ x ∉ xs, s'.seg x = s.seg x) ∧
      s'.top = s.top + 8 * xs.length ∧ s'.mem = s.mem ∧ s'.ctl = s.ctl := by
  induction xs generalizing s with
  | nil => exact ⟨fun r hr => absurd hr List.not_mem_nil, fun _ _ => rfl, rfl, rfl, rfl⟩
  | cons x xs ih =>
      rw [List.length_cons] at room
      let s₁ := (s.drop.set d s.peek).setSeg x (((s.drop.set d s.peek).reg d).setWidth 16)
      have htop : s₁.top = s.top + 8 := by
        show (s.drop.set d s.peek).top = _
        rw [State.top_set hd, State.top_drop (by omega)]
      have hholds := h.2
      rw [← htop] at hholds
      obtain ⟨hsegs, hothers, htop', hmem, hctl⟩ := ih (s := s₁) hholds (by omega)
      have hset : s₁.seg x = (g x).setWidth 16 := by
        show Function.update _ _ _ _ = _
        rw [Function.update_self, State.set_self, ← h.1]
        rfl
      refine ⟨?_, ?_, ?_, hmem, hctl⟩
      · intro x' hx'
        by_cases hin : x' ∈ xs
        · exact hsegs x' hin
        · obtain rfl := (List.mem_cons.mp hx').resolve_right hin
          exact (hothers x' hin).trans hset
      · intro x' hx'
        obtain ⟨hne, hin⟩ := not_or.mp (mt List.mem_cons.mpr hx')
        exact (hothers x' hin).trans (Function.update_of_ne hne ..)
      · rw [List.length_cons]
        refine htop'.trans ?_
        omega

end X86
