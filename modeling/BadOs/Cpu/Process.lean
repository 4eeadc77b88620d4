import BadOs.Cpu.MainLoop
import BadOs.Cpu.Syscall

/-!
# Processes

A process from `call_user_function` to the main loop. It gets a stack of its own and runs in user
mode, and the kernel goes on with its own stack when the process has ended.
-/

namespace BadOs

open X86 Transition

variable {W : Type} {k : Image W} {s c : State} {w w' w'' : W} {Q : State × W → Prop}

/-- `process_t`. -/
structure Process where
  entry : BitVec 64
  stack : BitVec 64
  reap : BitVec 64

/-- The structure is at this address. -/
def Process.At (p : Process) (a : Nat) (m : ByteMem) : Prop := m.Holds a [p.entry, p.stack, p.reap]

/-- The stack of the kernel is in `[low, high)` and its variables are above it. A process and its
stack are apart from both, and there is room for three words. -/
structure Separate (sym : Symbols) (low high proc stack : Nat) : Prop where
  high_le : high ≤ sym.lastStack.toNat
  next : sym.currentTask.toNat = sym.lastStack.toNat + 8
  room : proc + 48 ≤ stack
  process : stack ≤ low ∨ sym.currentTask.toNat + 8 ≤ proc

/-- What the kernel needs for the end of a process: its stack, which process it is, and the
structure of the process. -/
structure Pending (sym : Symbols) (last proc : BitVec 64) (p : Process) (m : ByteMem) : Prop where
  lastStack : m.read sym.lastStack.toNat 8 = last
  currentTask : m.read sym.currentTask.toNat 8 = proc
  process : p.At proc.toNat m

/-- The entry of a process is called by `user_entry`. -/
structure Entered (k : Image W) (p : Process) (s c : State) : Prop where
  rip : c.rip = p.entry
  rsp : c.reg .rsp + 8 = p.stack
  peek : c.peek = k.sys.addr .userEntry 1
  seg : c.seg = userSegs
  flags : c.flags = s.flags
  ctl : c.ctl = s.ctl

section

variable {p : Process} {sym : Symbols} {low : Nat} {last proc : BitVec 64} {m m' : ByteMem}

/-- The stack of the kernel. -/
theorem Pending.kernel {high : Nat} (h : Pending sym last proc p m)
    (hsep : Separate sym low high proc.toNat p.stack.toNat) (hsame : m.SameBut low high m') :
    Pending sym last proc p m' := by
  obtain ⟨hhigh, hnext, hroom, hprocess⟩ := hsep
  constructor
  · rw [hsame.read (by omega), h.lastStack]
  · rw [hsame.read (by omega), h.currentTask]
  · refine ByteMem.Holds.congr h.process hsame ?_
    simp only [List.length_cons, List.length_nil]
    omega

/-- The stack of the process. -/
theorem Pending.user {high : Nat} (h : Pending sym last proc p m)
    (hsep : Separate sym low high proc.toNat p.stack.toNat) (hle : low ≤ high)
    (hsame : m.SameBut (p.stack.toNat - 24) p.stack.toNat m') : Pending sym last proc p m' := by
  obtain ⟨hhigh, hnext, hroom, hprocess⟩ := hsep
  constructor
  · rw [hsame.read (by omega), h.lastStack]
  · rw [hsame.read (by omega), h.currentTask]
  · refine ByteMem.Holds.congr h.process hsame ?_
    simp only [List.length_cons, List.length_nil]
    omega

end

/-- `call_user_function` has noted the process and taken the selectors of user mode. -/
structure Noted (sym : Symbols) (s b : State) : Prop where
  reg : ∀ r ≠ Reg.rax, b.reg r = s.reg r
  mem : b.mem = s.mem.write sym.currentTask.toNat 8 (s.reg .rdi)
  data : ∀ x, x ≠ .cs → x ≠ .ss → b.seg x = userData
  flags : b.flags = s.flags
  ctl : b.ctl = s.ctl

/-- The frame for `iretq` is on the stack. -/
structure Launched (k : Image W) (last : BitVec 64) (p : Process) (s t : State) : Prop where
  frame : t.mem.Holds t.top [k.sys.addr .userEntry 0, userCode.setWidth 64, s.flags, p.stack,
    userData.setWidth 64]
  rdi : t.reg .rdi = s.reg .rdi
  data : ∀ x, x ≠ .cs → x ≠ .ss → t.seg x = userData
  ctl : t.ctl = s.ctl
  pending : Pending k.sym last (s.reg .rdi) p t.mem

section

variable {p : Process} {low : Nat} {last : BitVec 64}

/-- Up to the first push. -/
theorem noted (sym : Symbols) (s : State) : Noted sym s (applyAll
    ([.storeAt sym.currentTask .rdi, .movImm16 .rax userData] ++ loadSegs) s) := by
  rw [applyAll_append]
  refine ⟨fun r hr => ?_, rfl, fun x hcs hss => ?_, rfl, rfl⟩
  · rw [reg_loadSegs]
    exact State.set_of_ne hr ..
  · have hax : ((applyAll [.storeAt sym.currentTask .rdi, .movImm16 .rax userData] s).reg
        .rax).setWidth 16 = userData := BitVec.setWidth_append_eq_right
    cases x <;> first | exact hax | contradiction

theorem Noted.pending {b : State} (h : Noted k.sym s b) (hp : p.At (s.reg .rdi).toNat s.mem)
    (hlast : s.mem.read k.sym.lastStack.toNat 8 = last)
    (hsep : Separate k.sym low last.toNat (s.reg .rdi).toNat p.stack.toNat)
    (hle : low ≤ last.toNat) : Pending k.sym last (s.reg .rdi) p b.mem := by
  obtain ⟨hhigh, hnext, hroom, hprocess⟩ := hsep
  rw [h.mem]
  refine ⟨?_, ByteMem.read_write_self .., ?_⟩
  · rw [ByteMem.read_write_of_disjoint (by omega), hlast]
  · refine ByteMem.Holds.congr hp (ByteMem.SameBut.write s.mem _ 8 (s.reg .rdi)) ?_
    simp only [List.length_cons, List.length_nil]
    omega

/-- `iretq` takes the frame. -/
theorem Launched.iretq {t : State} (h : Launched k last p s t) (rip : BitVec 64) :
    (t.goto rip).iretq = { t.set .rsp p.stack with
      seg := userSegs
      rip := k.sys.addr .userEntry 0
      flags := s.flags } := by
  have hseg : Function.update (Function.update (t.goto rip).seg .cs
      ((userCode.setWidth 64).setWidth 16)) .ss ((userData.setWidth 64).setWidth 16) =
      userSegs := by
    funext x
    cases x with
    | cs => rfl
    | ss => rfl
    | _ => exact h.data _ (by decide) (by decide)
  rw [State.iretq_eq (s := t.goto rip) h.frame, hseg]
  rfl

end

/-- The end of a process: its entry has returned to `user_entry`. -/
structure Ended (k : Image W) (last : BitVec 64) (p : Process) (s v : State) : Prop where
  rip : v.rip = k.sys.addr .userEntry 1
  rsp : v.reg .rsp = p.stack
  ctl : v.ctl = s.ctl
  pending : Pending k.sym last (s.reg .rdi) p v.mem

/-- The entry of a process may be a compiled function that gets along with its stack. -/
theorem Entered.compiled {p : Process} {low : Nat} {last : BitVec 64} {g : State → W → Option W}
    (hc : Entered k p s c) (hpending : Pending k.sym last (s.reg .rdi) p c.mem)
    (hsep : Separate k.sym low last.toNat (s.reg .rdi).toNat p.stack.toNat)
    (hle : low ≤ last.toNat) (hentry : k.sys.compiled p.entry = some g) (hg : g c w = some w')
    (room : (s.reg .rdi).toNat + 32 + k.sys.depth ≤ p.stack.toNat) :
    Leads k.sys.Step (fun v => v.2 = w' ∧ Ended k last p s v.1) (c, w) := by
  refine System.leads_compiled (hc.rip ▸ hentry) hg ?_
  intro v hv
  have htop : c.top + 8 = p.stack.toNat := by
    have hrsp := hc.rsp
    have hroom := hsep.room
    unfold State.top
    bv_omega
  obtain ⟨hhigh, hnext, hroom, hprocess⟩ := hsep
  refine .here ⟨rfl, hv.rip.trans hc.peek, hv.rsp.trans hc.rsp, hv.ctl.trans hc.ctl, ?_, ?_, ?_⟩
  · exact (hv.mem.read (by omega)).trans hpending.lastStack
  · exact (hv.mem.read (by omega)).trans hpending.currentTask
  · refine ByteMem.Holds.congr hpending.process hv.mem ?_
    simp only [List.length_cons, List.length_nil]
    omega

/-! ## `create_process` -/

def Process.store (p : Process) (a : Nat) (m : ByteMem) : ByteMem :=
  ((m.write a 8 p.entry).write (a + 8) 8 p.stack).write (a + 16) 8 p.reap

end BadOs
