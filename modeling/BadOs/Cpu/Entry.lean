import BadOs.Data.X86

/-!
# The assembly code

`entry.asm` as blocks of instructions, one for each label. Where a block runs into the next one, it
ends with a jump there. The addresses of the instructions are those that the assembler and the
linker give them.
-/

namespace BadOs

open X86

/-- `segment(idx, dpl)`. -/
def segment (idx dpl : Nat) : BitVec 16 := BitVec.ofNat 16 (idx <<< 3 + dpl)

abbrev kernelCode : BitVec 16 := segment 1 0

abbrev kernelData : BitVec 16 := segment 2 0

abbrev user32Code : BitVec 16 := segment 3 3

abbrev userCode : BitVec 16 := segment 5 3

abbrev userData : BitVec 16 := segment 4 3

/-- The selectors of the kernel, or those of a program. -/
def modeSegs (code data : BitVec 16) : Seg → BitVec 16 := fun x => if x = .cs then code else data

abbrev kernelSegs : Seg → BitVec 16 := modeSegs kernelCode kernelData

abbrev userSegs : Seg → BitVec 16 := modeSegs userCode userData

inductive Label where
  | start
  | mainLoop
  | stackSlam
  | installGdt
  | reloadDone
  | installTss
  | callUserFunction
  | userEntry
  | endUserFn
  | initSyscall
  | syscall
  | syscallEnter
  | createGate
  | irq (n : Fin 16)
  | isr (n : Fin 32)
  | isrCommon
  | irqCommon
  | resetMaster
  deriving DecidableEq

/-- Where the C functions and the data are. -/
structure Symbols where
  main : BitVec 64
  irqHandler : BitVec 64
  isrHandler : BitVec 64
  consoleClearScreen : BitVec 64
  consolePrintString : BitVec 64
  taskPollForWork : BitVec 64
  lastStack : BitVec 64
  currentTask : BitVec 64
  stackDiffers : BitVec 64
  helloMessage : BitVec 64
  gdtr64 : BitVec 64

/-- The general registers in the order in which `PUSH_ALL` saves them. -/
def pushedRegs : List Reg :=
  [.rbp, .r15, .r14, .r13, .r12, .r11, .r10, .r9, .r8, .rdx, .rcx, .rbx, .rax, .rsi, .rdi]

def pushedSegs : List Seg := [.gs, .fs, .es, .ds, .ss]

/-- `PUSH_ALL`. -/
def pushAll : List Op :=
  pushedRegs.map .push ++ pushSegs .rcx pushedSegs ++ [.mov .rsi .rsp]

def poppedSegs : List Seg := [.ds, .es, .fs, .gs]

/-- The general registers in the order in which `POP_ALL` restores them. -/
def poppedRegs : List Reg :=
  [.rdi, .rsi, .rax, .rbx, .rcx, .rdx, .r8, .r9, .r10, .r11, .r12, .r13, .r14, .r15, .rbp]

/-- `POP_ALL`. -/
def popAll : List Op :=
  [.pop .rcx] ++ popSegs .rcx poppedSegs ++ poppedRegs.map .pop ++ [.addImm .rsp 8]

/-- The exceptions for which the code has `ISR_ERR`. -/
def isrErr : List Nat := [8, 10, 11, 12, 13, 14, 17]

/-- The first part of `ISR`, `ISR_ERR` and `IRQ`. -/
def stub (err : Bool) (vector : BitVec 64) : List Op :=
  [.cli] ++ (if err then [] else [.pushImm 0]) ++ pushAll ++ [.movImm .rdi vector]

/-- The second part of `isr_common` and `irq_common`. -/
def leave : List Instr := straight (popAll ++ [.sti]) ++ [.iretq]

/-- The data segments, from `ax`. -/
def loadSegs : List Op :=
  [.loadSeg .ds .rax, .loadSeg .es .rax, .loadSeg .fs .rax, .loadSeg .gs .rax]

/-- `create_gate` up to its `ret`. -/
def createGateOps : List Op :=
  [.shlImm .rdi 4, .mov .rax .rsi, .stos 2, .movImm16 .rax kernelCode, .stos 2, .movImm16 .rax 0,
    .stos 1, .movImm8 .rax 0x8e, .stos 1, .shrImm .rax 16, .stos 2, .shrImm .rax 16, .stos 4,
    .movImm .rax 0, .stos 4]

section

variable (addr : Label → Nat → BitVec 64) (sym : Symbols)

/-- `install_gdt` up to its `retf`. -/
def installGdtOps : List Op :=
  [.mov32 .rcx .rsi, .dec32 .rsi, .storeAt16 sym.gdtr64 .rsi, .mov .rsi .rdi, .movImm .rdi 0x1000,
    .storeAt (sym.gdtr64 + 2) .rdi, .repMovsb, .lgdt sym.gdtr64, .movImm16 .rax kernelData,
    .loadSeg .ss .rax] ++ loadSegs ++
  [.movImm .rax (addr .reloadDone 0), .pushImm (kernelCode.setWidth 64), .push .rax]

/-- `call_user_function` up to its `iretq`. -/
def callUserFunctionOps : List Op :=
  [.storeAt sym.currentTask .rdi, .movImm16 .rax userData] ++ loadSegs ++
  [.mov .rax .rsp, .push .rax, .load .rax .rdi 8, .pushImm (userData.setWidth 64), .push .rax,
    .pushf, .pushImm (userCode.setWidth 64), .pushImm (addr .userEntry 0)]

/-- `init_syscall` up to its `ret`. -/
def initSyscallOps : List Op :=
  [.movImm .rdx (user32Code.setWidth 64 <<< 16 + kernelCode.setWidth 64), .movImm .rax 0,
    .movImm .rcx 0xc0000081, .wrmsr, .movImm .rax (addr .syscallEnter 0), .mov .rdx .rax,
    .shrImm .rdx 32, .movImm .rcx 0xc0000082, .wrmsr]

end

/-- `syscall_enter` up to the call. -/
def syscallEnterOps : List Op :=
  [.readSeg16 .rax .ss] ++ loadSegs ++ [.push .r11, .push .rcx, .mov .rax .rdi, .mov .rdi .rsi]

/-- `syscall_enter` behind the call, up to its `sysret`. -/
def syscallLeaveOps : List Op :=
  [.pop .rcx, .pop .r11, .movImm16 .rax userData] ++ loadSegs

/-- `entry.asm`. -/
def entry (addr : Label → Nat → BitVec 64) (sym : Symbols) : Label → List Instr
  | .start =>
      [.op (.movImm .rsp 0x18000), .call sym.consoleClearScreen,
        .op (.movImm .rdi sym.helloMessage), .call sym.consolePrintString, .call sym.main,
        .op (.storeAt32 sym.lastStack .rsp), .jmp (addr .mainLoop 0)]
  | .mainLoop =>
      [.op (.loadAt32 .rax sym.lastStack), .op (.cmp32 .rax .rsp), .jne (addr .stackSlam 0),
        .call sym.taskPollForWork, .op .sti, .hlt, .jmp (addr .mainLoop 0)]
  | .stackSlam =>
      [.op (.movImm .rdi sym.stackDiffers), .call sym.consolePrintString,
        .op (.loadAt32 .rsp sym.lastStack), .jmp (addr .mainLoop 0)]
  | .installGdt => straight (installGdtOps addr sym) ++ [.retf]
  | .reloadDone => [.ret]
  | .installTss => straight [.movImm16 .rax (segment 6 0), .ltr .rax] ++ [.ret]
  | .callUserFunction => straight (callUserFunctionOps addr sym) ++ [.iretq]
  | .userEntry =>
      [.callMem .rdi 0, .op (.movImm .rdi (addr .endUserFn 0)), .syscall]
  | .endUserFn =>
      [.op (.loadAt .rsp sym.lastStack), .op (.loadAt .rdi sym.currentTask), .callMem .rdi 16,
        .jmp (addr .mainLoop 0)]
  | .initSyscall => straight (initSyscallOps addr) ++ [.ret]
  | .syscall => [.syscall, .ret]
  | .syscallEnter =>
      straight syscallEnterOps ++ [.callReg .rax] ++ straight syscallLeaveOps ++ [.sysret]
  | .createGate => straight createGateOps ++ [.ret]
  | .irq n =>
      straight (stub false (BitVec.ofNat 64 (32 + n))) ++ [.jmp (addr .irqCommon 0)]
  | .isr n =>
      straight (stub (decide (n.val ∈ isrErr)) (BitVec.ofNat 64 n)) ++ [.jmp (addr .isrCommon 0)]
  | .isrCommon => [.call sym.isrHandler] ++ leave
  | .irqCommon =>
      [.op (.movImm8 .rax 0x20), .op (.cmpImm32 .rdi 39), .jle (addr .resetMaster 0), .out 0xa0,
        .jmp (addr .resetMaster 0)]
  | .resetMaster => [.out 0x20, .call sym.irqHandler] ++ leave

/-- The assembly code in memory. -/
structure Image (W : Type) where
  sys : System Label W
  sym : Symbols
  code : sys.code = entry sys.addr sym

/-! ## A place for the code

Any addresses will do for the theorems. Here are some: the C functions are below 1 MB, and each
block has 256 addresses above. -/

namespace Label

def index : Label → Nat
  | .start => 0
  | .mainLoop => 1
  | .stackSlam => 2
  | .installGdt => 3
  | .reloadDone => 4
  | .installTss => 5
  | .callUserFunction => 6
  | .userEntry => 7
  | .endUserFn => 8
  | .initSyscall => 9
  | .syscall => 10
  | .syscallEnter => 11
  | .createGate => 12
  | .isrCommon => 13
  | .irqCommon => 14
  | .resetMaster => 15
  | .irq n => 16 + n
  | .isr n => 32 + n

def ofIndex (k : Nat) : Label :=
  match k with
  | 0 => .start
  | 1 => .mainLoop
  | 2 => .stackSlam
  | 3 => .installGdt
  | 4 => .reloadDone
  | 5 => .installTss
  | 6 => .callUserFunction
  | 7 => .userEntry
  | 8 => .endUserFn
  | 9 => .initSyscall
  | 10 => .syscall
  | 11 => .syscallEnter
  | 12 => .createGate
  | 13 => .isrCommon
  | 14 => .irqCommon
  | 15 => .resetMaster
  | k + 16 => if k < 16 then .irq (Fin.ofNat 16 k) else .isr (Fin.ofNat 32 (k - 16))

theorem ofIndex_index (l : Label) : ofIndex l.index = l := by
  cases l with
  | irq n =>
      revert n
      decide
  | isr n =>
      revert n
      decide
  | _ => rfl

theorem index_lt (l : Label) : l.index < 64 := by
  cases l with
  | irq n => exact Nat.lt_of_lt_of_le (Nat.add_lt_add_left n.isLt 16) (by decide)
  | isr n => exact Nat.add_lt_add_left n.isLt 32
  | _ => decide

end Label

def placedAt (l : Label) (i : Nat) : BitVec 64 := BitVec.ofNat 64 (0x100000 + 256 * l.index + i)

def placedSymbols : Symbols where
  main := 0x10000
  irqHandler := 0x10100
  isrHandler := 0x10200
  consoleClearScreen := 0x10300
  consolePrintString := 0x10400
  taskPollForWork := 0x10500
  lastStack := 0x20000
  currentTask := 0x20008
  stackDiffers := 0x20010
  helloMessage := 0x20030
  gdtr64 := 0x20050

def placedFetch (a : BitVec 64) : Option (Instr × BitVec 64) :=
  if 0x100000 ≤ a.toNat then
    let l := Label.ofIndex ((a.toNat - 0x100000) / 256)
    let i := (a.toNat - 0x100000) % 256
    (entry placedAt placedSymbols l)[i]?.map fun instr => (instr, placedAt l (i + 1))
  else none

theorem length_stub (err : Bool) (vector : BitVec 64) : (stub err vector).length ≤ 30 := by
  have hlength : (stub err vector).length = if err then 28 else 29 := by cases err <;> rfl
  rw [hlength]
  split <;> decide

theorem length_entry (l : Label) : (entry placedAt placedSymbols l).length < 256 := by
  cases l with
  | irq n =>
      have hstub := length_stub false (BitVec.ofNat 64 (32 + n))
      simp only [entry, List.length_append, List.length_map, List.length_singleton]
      omega
  | isr n =>
      have hstub := length_stub (decide (n.val ∈ isrErr)) (BitVec.ofNat 64 n)
      simp only [entry, List.length_append, List.length_map, List.length_singleton]
      omega
  | _ => decide

theorem placedFetch_eq (l : Label) (i : Nat) (instr : Instr)
    (h : (entry placedAt placedSymbols l)[i]? = some instr) :
    placedFetch (placedAt l i) = some (instr, placedAt l (i + 1)) := by
  have hi := (List.getElem?_eq_some_iff.mp h).1
  have hlength := length_entry l
  have hl := l.index_lt
  have haddr : (placedAt l i).toNat = 0x100000 + 256 * l.index + i := by
    unfold placedAt
    rw [BitVec.toNat_ofNat]
    omega
  have hblock : (0x100000 + 256 * l.index + i - 0x100000) / 256 = l.index := by omega
  have hnumber : (0x100000 + 256 * l.index + i - 0x100000) % 256 = i := by omega
  unfold placedFetch
  dsimp only
  rw [haddr, if_pos (by omega), hblock, hnumber, Label.ofIndex_index, h]
  rfl

/-- The code at these addresses, with any C functions. -/
def Image.placed {W : Type} (devices : BitVec 8 → BitVec 8 → W → W)
    (compiled : BitVec 64 → Option (State → W → Option W)) (depth : Nat) : Image W where
  sys := {
    code := entry placedAt placedSymbols
    addr := placedAt
    fetch := placedFetch
    loaded := placedFetch_eq
    devices := devices
    compiled := fun a => if a.toNat < 0x100000 then compiled a else none
    apart := by
      intro a h
      by_cases ha : a.toNat < 0x100000
      · exact if_neg (Nat.not_le_of_lt ha)
      · rw [if_neg ha] at h
        cases h
    depth := depth }
  sym := placedSymbols
  code := rfl

end BadOs
