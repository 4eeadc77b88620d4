import BadOs.Cpu.Idt

/-!
# The main loop

`main_loop` calls `task_poll_for_work` and waits for an interrupt, again and again. Seen from the C
functions this is a loop over the interrupts, each of which is handled and followed by the work that
there is.
-/

namespace BadOs

open X86 Transition

variable {W : Type} {k : Image W} {s u : State} {w w' w'' : W} {Q : State × W → Prop}

/-- `task_poll_for_work` is called by the main loop. -/
structure Polls (k : Image W) (s u : State) : Prop where
  rip : u.rip = k.sym.taskPollForWork
  rsp : u.reg .rsp + 8 = s.reg .rsp
  peek : u.peek = k.sys.addr .mainLoop 4
  seg : u.seg = s.seg
  ctl : u.ctl = s.ctl
  mem : s.mem.SameBut (s.top - 8) s.top u.mem

def mainLoopOps (sym : Symbols) : List Op := [.loadAt32 .rax sym.lastStack, .cmp32 .rax .rsp]

/-- The lower halves of `last_stack` and of the stack pointer are compared. -/
theorem zeroFlag_mainLoopOps (sym : Symbols) (s : State) :
    (applyAll (mainLoopOps sym) s).flags.getLsbD zeroFlag =
      (s.mem.read sym.lastStack.toNat 4 == (s.reg .rsp).setWidth 32) := by
  refine (zeroFlag_compareFlags _ _ s.flags).trans ?_
  have hrax : (Op.apply (.loadAt32 .rax sym.lastStack) s).reg .rax =
      (s.mem.read sym.lastStack.toNat 4).setWidth 64 := State.set_self ..
  have hrsp : (Op.apply (.loadAt32 .rax sym.lastStack) s).reg .rsp = s.reg .rsp :=
    State.set_of_ne (show Reg.rsp ≠ .rax by decide) _ s
  rw [hrax, hrsp, BitVec.setWidth_setWidth_of_le _ (by decide)]
  rfl

theorem reg_mainLoopOps (sym : Symbols) (s : State) {r : Reg} (hr : r ≠ .rax) :
    (applyAll (mainLoopOps sym) s).reg r = s.reg r :=
  State.set_of_ne hr ((s.mem.read sym.lastStack.toNat 4).setWidth 64) s

/-- The stack pointer is what `last_stack` says. -/
theorem poll_spec (hrip : s.rip = k.sys.addr .mainLoop 0)
    (hlast : s.mem.read k.sym.lastStack.toNat 4 = (s.reg .rsp).setWidth 32) (room : 8 ≤ s.top)
    (h : ∀ u, Polls k s u → Leads k.sys.Step Q (u, w)) : Leads k.sys.Step Q (s, w) := by
  have hcode := congrFun k.code .mainLoop
  refine System.leads_ops [] (mainLoopOps k.sym) hcode rfl hrip ?_
  have hzero := zeroFlag_mainLoopOps k.sym s
  rw [beq_iff_eq.mpr hlast] at hzero
  generalize ht : applyAll (mainLoopOps k.sym) s = t at hzero
  have hrsp : t.reg .rsp = s.reg .rsp := by
    rw [← ht]
    exact reg_mainLoopOps k.sym s (by decide)
  have htop : t.top = s.top := congrArg BitVec.toNat hrsp
  have hpushed : Pushed (s.top - 8) s t [] :=
    (Pushed.refl (by omega)).congr hrsp (ht ▸ rfl) (ht ▸ rfl) (ht ▸ rfl)
  refine System.leads_instr (i := 2) rfl (congrArg (·[2]?) hcode) rfl ?_
  change Leads _ _ (State.goto (if t.flags.getLsbD zeroFlag then _ else _) _, w)
  rw [hzero, if_pos rfl]
  refine System.leads_instr (i := 3) rfl (congrArg (·[3]?) hcode) rfl ?_
  have hcall := hpushed.push (by omega) (k.sys.addr .mainLoop 4)
  refine h _ ⟨rfl, ?_, hcall.holds.1, hcall.seg, hcall.ctl, hcall.mem⟩
  rw [← hrsp]
  exact (congrArg (· + 8) (State.push_rsp (k.sys.addr .mainLoop 4) t)).trans
    (BitVec.sub_add_cancel (t.reg .rsp) 8)

theorem read_low (m : ByteMem) (a : Nat) : m.read a 4 = (m.read a 8).setWidth 32 := by
  rw [BitVec.setWidth_eq_extractLsb' (by decide)]
  exact (ByteMem.extractLsb'_read_word m a (n := 8) (j := 0) (k := 4) (by decide)).symm

/-- The processor waits at `hlt`. The stack is empty but for `high`, where the main loop left it. -/
structure Idle (k : Image W) (table : ByteMem) (high : Nat) (s : State) : Prop where
  rip : s.rip = k.sys.addr .mainLoop 5
  top : s.top = high
  lastStack : s.mem.read k.sym.lastStack.toNat 8 = s.reg .rsp
  idt : ∀ x < 768, s.mem x = table x
  seg : s.seg = kernelSegs

/-- An interrupt comes, and the processor goes on behind `hlt` then. -/
def wake (k : Image W) (rsp0 : BitVec 64) (n : Fin 16) (s : State) : State :=
  (s.goto (k.sys.addr .mainLoop 6)).interrupt (idtEntry s.mem (32 + n)) rsp0 none

/-- Interrupts come one after the other, each when the processor waits again. -/
def Serves (k : Image W) (rsp0 : BitVec 64) (Q : State × W → Prop) :
    List (Fin 16) → State × W → Prop
  | [] => Q
  | n :: ns => fun u => Leads k.sys.Step (Serves k rsp0 Q ns) (wake k rsp0 n u.1, u.2)

theorem Serves.mono {rsp0 : BitVec 64} {P : State × W → Prop} {ns : List (Fin 16)}
    {v : State × W} (h : Serves k rsp0 P ns v) (weaker : ∀ u, P u → Q u) :
    Serves k rsp0 Q ns v := by
  induction ns generalizing v with
  | nil => exact weaker v h
  | cons n ns ih => exact Leads.mono h fun u hu => ih hu

theorem and_not_fifteen {v : BitVec 64} (h : v.toNat % 16 = 0) : v &&& ~~~15 = v := by
  apply BitVec.eq_of_getLsbD_eq
  intro i hi
  have hmask : (15 : BitVec 64).getLsbD i = decide (i < 4) := by
    revert i
    decide
  rw [BitVec.getLsbD_and, BitVec.getLsbD_not, hmask, decide_eq_true hi, Bool.true_and]
  by_cases hlow : i < 4
  · have hbit : v.getLsbD i = false := by
      have hmod := Nat.testBit_mod_two_pow v.toNat 4 i
      rw [show 2 ^ 4 = 16 from rfl, h, Nat.zero_testBit, decide_eq_true hlow, Bool.true_and] at hmod
      exact hmod.symm
    rw [hbit, Bool.false_and]
  · rw [decide_eq_false hlow, Bool.not_false, Bool.and_true]

section

variable {U : Type} {handlers : BitVec 8 → Handler U W} {m₀ : ByteMem} {w₀ : W} {high : Nat}
  {handle : Fin 16 → W → Option W} {poll : W → Option W}

/-- The handler runs, then the work is done, and the processor waits as before. -/
theorem Idle.irq (h : Idle k (initInterrupts k m₀ w₀).1 high s) (rsp0 : BitVec 64) (n : Fin 16)
    (hk : k.Dispatches handlers)
    (hhandle : ∀ regs w, irqHandler handlers (BitVec.ofNat 8 (32 + n)) regs w = handle n w)
    (hpoll : k.sys.compiled k.sym.taskPollForWork =
      some fun s w => if s.Aligned then poll w else none)
    (haligned : high % 16 = 0) (hhigh : high ≤ k.sym.lastStack.toNat)
    (room : 984 + k.sys.depth ≤ high)
    (hw : handle n (endOfInterrupt k.sys.devices n w) = some w') (hw' : poll w' = some w'') :
    Leads k.sys.Step (fun u => u.2 = w'' ∧ Idle k (initInterrupts k m₀ w₀).1 high u.1)
      (wake k rsp0 n s, w) := by
  generalize hs₁ : s.goto (k.sys.addr .mainLoop 6) = s₁
  have hmem₁ : s₁.mem = s.mem := hs₁ ▸ rfl
  have hstack : (s₁.interruptStack rsp0).toNat = high := by
    have hinner : ¬s₁.Outer := by
      unfold State.Outer
      rw [← hs₁, State.goto_seg, h.seg]
      decide
    have htop : (s₁.reg .rsp).toNat = high := hs₁ ▸ h.top
    rw [State.interruptStack, if_neg hinner, and_not_fifteen (htop.symm ▸ haligned), htop]
  have hidt : IdtReady k s₁.mem := @IdtReady.of_eq W k s₁.mem m₀ w₀ (hmem₁ ▸ h.idt)
  have hgate := congrArg Gate.offset (hidt.irq n)
  rw [hmem₁] at hgate
  have hroom : 768 + 216 + k.sys.depth ≤ (s₁.interruptStack rsp0).toNat := by omega
  have hirq := irq_spec (s := s₁) hk n hgate hroom ((hhandle _ _).trans hw)
  rw [wake, hs₁]
  refine hirq.trans ?_
  rintro ⟨t, w₁⟩ ⟨hw₁ : w₁ = w', ht⟩
  subst hw₁
  have hcode := congrFun k.code .mainLoop
  refine System.leads_instr (l := .mainLoop) (i := 6) (ht.rip.trans (hs₁ ▸ rfl))
    (congrArg (·[6]?) hcode) rfl ?_
  have hsame : s.mem.SameBut 768 high t.mem := hmem₁ ▸ hstack ▸ ht.mem
  have hrsp : t.reg .rsp = s.reg .rsp := (congrFun ht.reg .rsp).trans (hs₁ ▸ rfl)
  have htop : t.top = high := (congrArg BitVec.toNat hrsp).trans h.top
  have hlast : t.mem.read k.sym.lastStack.toNat 8 = s.reg .rsp :=
    (hsame.read (.inr hhigh)).trans h.lastStack
  have hlow : t.mem.read k.sym.lastStack.toNat 4 = (t.reg .rsp).setWidth 32 := by
    rw [hrsp, ← hlast]
    exact read_low t.mem k.sym.lastStack.toNat
  refine poll_spec (s := t.goto _) rfl hlow (show 8 ≤ t.top by omega) ?_
  intro c hc
  have hctop : c.top + 8 = high := by
    have hcrsp : c.reg .rsp + 8 = t.reg .rsp := hc.rsp
    unfold State.top at *
    bv_omega
  have hentry : c.Aligned := by
    unfold State.Aligned
    omega
  refine System.leads_compiled (hc.rip ▸ hpoll) ((if_pos hentry).trans hw') ?_
  intro v hv
  have hvrsp : v.reg .rsp = s.reg .rsp := (hv.rsp.trans hc.rsp).trans hrsp
  have hvmem : s.mem.SameBut 768 high v.mem := by
    have hcmem : t.mem.SameBut (t.top - 8) t.top c.mem := hc.mem
    refine (hsame.trans (hcmem.mono ?_ ?_)).trans (hv.mem.mono ?_ ?_) <;> omega
  refine System.leads_instr (hv.rip.trans hc.peek) (congrArg (·[4]?) hcode) rfl (.here ⟨rfl, ?_⟩)
  constructor
  · rfl
  · exact (congrArg BitVec.toNat hvrsp).trans h.top
  · exact ((hvmem.read (.inr hhigh)).trans h.lastStack).trans hvrsp.symm
  · intro x hx
    exact (hvmem x (.inl hx)).trans (h.idt x hx)
  · refine (hv.seg.trans hc.seg).trans (ht.seg.trans ?_)
    rw [← hs₁]
    exact h.seg

end

end BadOs
