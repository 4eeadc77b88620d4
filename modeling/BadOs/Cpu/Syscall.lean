import BadOs.Cpu.Entry

/-!
# System calls

`init_syscall`, and a system call and its way back. The function that is called runs on the stack of
the program.
-/

namespace BadOs

open X86 Transition

variable {W : Type} {k : Image W} {s c u : State} {w w' : W} {Q : State × W → Prop}

/-! ## `init_syscall` -/

/-- The processor knows where system calls go, and the selectors for both ways. -/
structure SyscallReady (k : Image W) (ctl : Control) : Prop where
  star : ctl.msr starMsr = user32Code ++ kernelCode ++ (0 : BitVec 32)
  lstar : ctl.msr lstarMsr = k.sys.addr .syscallEnter 0

theorem append_halves (v : BitVec 64) :
    ((v >>> 32).setWidth 32 ++ v.setWidth 32 : BitVec 64) = v := by
  apply BitVec.eq_of_getLsbD_eq
  intro i hi
  simp only [BitVec.getLsbD_append, BitVec.getLsbD_setWidth, BitVec.getLsbD_ushiftRight]
  by_cases hlow : i < 32
  · simp [hlow]
  · simp [hlow, show i - 32 < 32 by omega, show 32 + (i - 32) = i by omega]

/-- Other registers of this kind stay as they are. -/
theorem init_syscall_spec (k : Image W) {s : State} (w : W)
    (hrip : s.rip = k.sys.addr .initSyscall 0) :
    Leads k.sys.Step
      (fun u => u.2 = w ∧ SyscallReady k u.1.ctl ∧
        (∀ r, r ≠ starMsr → r ≠ lstarMsr → u.1.ctl.msr r = s.ctl.msr r) ∧ u.1.mem = s.mem ∧
        u.1.seg = s.seg ∧ u.1.rip = s.peek ∧ u.1.reg .rsp = s.reg .rsp + 8 ∧
        ∀ r ∈ calleeSaved, u.1.reg r = s.reg r) (s, w) := by
  have hcode := congrFun k.code .initSyscall
  refine System.leads_ops [] (initSyscallOps k.sys.addr) hcode rfl hrip ?_
  generalize ht : (applyAll (initSyscallOps k.sys.addr) s).goto (k.sys.addr .initSyscall _) = t
  have hreg : ∀ r, r ≠ Reg.rax ∧ r ≠ Reg.rcx ∧ r ≠ Reg.rdx → t.reg r = s.reg r := by
    rintro r ⟨hrax, hrcx, hrdx⟩
    rw [← ht, State.goto_reg]
    unfold initSyscallOps
    simp only [applyAll_cons, applyAll_nil, Op.apply, State.set, ne_eq, hrax, hrcx, hrdx,
      not_false_eq_true, Function.update_of_ne]
  have hmsr : t.ctl.msr = Function.update (Function.update s.ctl.msr starMsr
      (user32Code ++ kernelCode ++ (0 : BitVec 32))) lstarMsr (k.sys.addr .syscallEnter 0) := by
    rw [← ht]
    unfold initSyscallOps
    simp only [applyAll_cons, applyAll_nil, Op.apply, State.set, State.goto, Function.update_self,
      ne_eq, reduceCtorEq, not_false_eq_true, Function.update_of_ne, append_halves]
    rfl
  have hmem : t.mem = s.mem := by
    rw [← ht]
    rfl
  have hseg : t.seg = s.seg := by
    rw [← ht]
    rfl
  have hrip' : t.rip = k.sys.addr .initSyscall 9 := by
    rw [← ht]
    rfl
  refine System.leads_instr hrip' (congrArg (·[9]?) hcode) rfl (.here ⟨rfl, ⟨?_, ?_⟩, ?_⟩)
  · show t.ctl.msr _ = _
    rw [hmsr, Function.update_of_ne (by decide), Function.update_self]
  · show t.ctl.msr _ = _
    rw [hmsr, Function.update_self]
  refine ⟨?_, hmem, hseg, ?_, ?_, ?_⟩
  · intro r hstar hlstar
    show t.ctl.msr r = _
    rw [hmsr, Function.update_of_ne hlstar, Function.update_of_ne hstar]
  · show t.peek = s.peek
    unfold State.peek State.top
    rw [hmem, hreg .rsp (by decide)]
  · rw [← hreg .rsp (by decide)]
    exact State.drop_rsp t
  · intro r hr
    have hne : ∀ r ∈ calleeSaved, r ≠ Reg.rsp ∧ r ≠ Reg.rax ∧ r ≠ Reg.rcx ∧ r ≠ Reg.rdx := by decide
    rw [← hreg r (hne r hr).2]
    exact State.set_of_ne (hne r hr).1 (t.reg .rsp + 8) t

/-! ## System calls -/

/-- A function of the kernel is about to run in `c` for a program that was in `s`, in front of a
`syscall` instruction. It runs on the stack of the program, below what the way back needs. -/
structure SystemCall (k : Image W) (next : BitVec 64) (s c : State) : Prop where
  rip : c.rip = s.reg .rdi
  rdi : c.reg .rdi = s.reg .rsi
  top : c.top + 24 = s.top
  holds : c.mem.Holds c.top [k.sys.addr .syscallEnter 10, next, s.flags]
  mem : s.mem.SameBut (s.top - 24) s.top c.mem
  saved : ∀ r ∈ calleeSaved, c.reg r = s.reg r
  seg : c.seg = kernelSegs
  ctl : c.ctl = s.ctl

/-- The selector in `ax` gets into all the data segments. -/
theorem seg_loadSegs {code data : BitVec 16} (hax : (s.reg .rax).setWidth 16 = data)
    (hcs : s.seg .cs = code) (hss : s.seg .ss = data) :
    (applyAll loadSegs s).seg = modeSegs code data := by
  funext x
  cases x with
  | cs => exact hcs
  | ss => exact hss
  | _ => exact hax

theorem reg_loadSegs (s : State) : (applyAll loadSegs s).reg = s.reg := rfl

theorem syscall_eq (hready : SyscallReady k s.ctl) (next : BitVec 64) :
    s.syscall next = { s with
      reg := Function.update (Function.update s.reg .rcx next) .r11 s.flags
      seg := Function.update (Function.update s.seg .cs kernelCode) .ss kernelData
      rip := k.sys.addr .syscallEnter 0
      flags := s.flags &&& ~~~s.ctl.msr fmaskMsr } := by
  have hstar : (s.ctl.msr starMsr).extractLsb' 32 16 = kernelCode := by
    rw [hready.star]
    decide
  have hcs : (kernelCode &&& 0xfffc : BitVec 16) = kernelCode := by decide
  have hss : (kernelCode + 8 : BitVec 16) = kernelData := by decide
  unfold State.syscall
  simp only [hstar, hcs, hss, hready.lstar]

/-- In front of the first push: the selectors of the kernel, and what the way back needs in `rcx`
and `r11`. -/
structure KernelMode (next : BitVec 64) (s b : State) : Prop where
  reg : ∀ r, r ≠ Reg.rax → r ≠ Reg.rcx → r ≠ Reg.r11 → b.reg r = s.reg r
  rcx : b.reg .rcx = next
  r11 : b.reg .r11 = s.flags
  seg : b.seg = kernelSegs
  mem : b.mem = s.mem
  ctl : b.ctl = s.ctl

theorem kernelMode (hready : SyscallReady k s.ctl) (next : BitVec 64) :
    KernelMode next s (applyAll ([.readSeg16 .rax .ss] ++ loadSegs) (s.syscall next)) := by
  rw [syscall_eq hready]
  generalize hs₁ : ({ s with
    reg := Function.update (Function.update s.reg .rcx next) .r11 s.flags
    seg := Function.update (Function.update s.seg .cs kernelCode) .ss kernelData
    rip := k.sys.addr .syscallEnter 0
    flags := s.flags &&& ~~~s.ctl.msr fmaskMsr } : State) = s₁
  have hreg : ∀ r ≠ Reg.rax,
      (applyAll ([.readSeg16 .rax .ss] ++ loadSegs) s₁).reg r = s₁.reg r := by
    intro r hr
    rw [applyAll_append, reg_loadSegs]
    exact State.set_of_ne hr ..
  refine ⟨fun r hrax hrcx hr11 => ?_, ?_, ?_, ?_, ?_, ?_⟩
  · rw [hreg r hrax, ← hs₁]
    exact (Function.update_of_ne hr11 ..).trans (Function.update_of_ne hrcx ..)
  · rw [hreg .rcx (by decide), ← hs₁]
    rfl
  · rw [hreg .r11 (by decide), ← hs₁]
    rfl
  · rw [applyAll_append]
    refine seg_loadSegs ?_ (hs₁ ▸ rfl) (hs₁ ▸ rfl)
    have hrax : (Op.apply (.readSeg16 .rax .ss) s₁).reg .rax =
      (s₁.reg .rax).extractLsb' 16 48 ++ s₁.seg .ss := State.set_self ..
    rw [applyAll_cons, applyAll_nil, hrax, ← hs₁]
    exact BitVec.setWidth_append_eq_right
  · rw [← hs₁]
    rfl
  · rw [← hs₁]
    rfl

namespace KernelMode

variable {next : BitVec 64} {b : State}

theorem top (h : KernelMode next s b) : b.top = s.top :=
  congrArg BitVec.toNat (h.reg .rsp (by decide) (by decide) (by decide))

/-- The two pushes. -/
theorem pushed (h : KernelMode next s b) (room : 24 ≤ s.top) :
    Pushed (s.top - 24) b ((b.push s.flags).push next) [next, s.flags] := by
  have htop := h.top
  have hfirst := (Pushed.refl (s := b) (show s.top - 24 ≤ b.top by omega)).push (by omega) s.flags
  have htop₁ : (b.push s.flags).top + 8 = b.top := hfirst.top
  exact hfirst.push (by omega) next

/-- Up to the call: the function is in `rax`, and its argument in `rdi`. -/
theorem apply_enter (h : KernelMode next s b)
    (hb : b = applyAll ([.readSeg16 .rax .ss] ++ loadSegs) (s.syscall next)) :
    applyAll syscallEnterOps (s.syscall next) =
      (((b.push s.flags).push next).set .rax (s.reg .rdi)).set .rdi (s.reg .rsi) := by
  have hrdi : ((b.push s.flags).push next).reg .rdi = s.reg .rdi := by
    rw [State.push_reg (by decide), State.push_reg (by decide),
      h.reg .rdi (by decide) (by decide) (by decide)]
  have hrsi : ((b.push s.flags).push next).reg .rsi = s.reg .rsi := by
    rw [State.push_reg (by decide), State.push_reg (by decide),
      h.reg .rsi (by decide) (by decide) (by decide)]
  have hrcx : (b.push s.flags).reg .rcx = next := by
    rw [State.push_reg (by decide), h.rcx]
  have hpushes : applyAll [.push .r11, .push .rcx, .mov .rax .rdi, .mov .rdi .rsi] b =
      (((b.push s.flags).push next).set .rax (s.reg .rdi)).set .rdi (s.reg .rsi) := by
    rw [← hrdi, ← hrsi]
    simp only [applyAll_cons, applyAll_nil, Op.apply, h.r11, hrcx]
    rfl
  rw [syscallEnterOps, applyAll_append, ← hb]
  exact hpushes

end KernelMode

/-- From the instruction `syscall` to the function that it is for. -/
theorem enter_spec {l : Label} {i : Nat} (hready : SyscallReady k s.ctl)
    (hcode : (k.sys.code l)[i]? = some .syscall) (hrip : s.rip = k.sys.addr l i)
    (room : 24 ≤ s.top)
    (h : ∀ c, SystemCall k (k.sys.addr l (i + 1)) s c → Leads k.sys.Step Q (c, w)) :
    Leads k.sys.Step Q (s, w) := by
  have henter := congrFun k.code .syscallEnter
  refine System.leads_instr hrip hcode rfl ?_
  generalize k.sys.addr l (i + 1) = next at h ⊢
  have hentry : (s.syscall next).rip = k.sys.addr .syscallEnter 0 := by
    rw [syscall_eq hready]
  refine System.leads_ops [] syscallEnterOps henter rfl hentry ?_
  have hmode := kernelMode hready next
  generalize hb : applyAll ([.readSeg16 .rax .ss] ++ loadSegs) (s.syscall next) = b at hmode
  rw [hmode.apply_enter hb.symm]
  have hpushed := ((hmode.pushed room).set (r := .rax) (by decide) (s.reg .rdi)).set (r := .rdi)
    (by decide) (s.reg .rsi)
  generalize ht : (((b.push s.flags).push next).set .rax (s.reg .rdi)).set .rdi (s.reg .rsi) = t
    at hpushed
  have htop : t.top + 16 = s.top := hmode.top ▸ hpushed.top
  have hcall := hpushed.push (by omega) (k.sys.addr .syscallEnter 10)
  refine System.leads_instr rfl (congrArg (·[9]?) henter) rfl (h _ ?_)
  constructor
  · show t.reg .rax = s.reg .rdi
    rw [← ht, State.set_of_ne (by decide), State.set_self]
  · refine (State.push_reg (show Reg.rdi ≠ .rsp by decide)
      (k.sys.addr .syscallEnter 10) t).trans ?_
    rw [← ht, State.set_self]
  · have htop' := State.top_push (s := t) (by omega) (k.sys.addr .syscallEnter 10)
    change (t.push (k.sys.addr .syscallEnter 10)).top + 24 = s.top
    omega
  · exact hcall.holds
  · have hsame := hcall.mem
    rw [hmode.mem, hmode.top] at hsame
    exact hsame
  · intro r hr
    have hne : ∀ r ∈ calleeSaved, r ≠ Reg.rsp ∧ r ≠ Reg.rax ∧ r ≠ Reg.rcx ∧ r ≠ Reg.rdi ∧
      r ≠ Reg.r11 := by decide
    obtain ⟨hrsp, hrax, hrcx, hrdi, hr11⟩ := hne r hr
    refine (State.push_reg hrsp (k.sys.addr .syscallEnter 10) t).trans ?_
    rw [← ht, State.set_of_ne hrdi, State.set_of_ne hrax, State.push_reg hrsp, State.push_reg hrsp,
      hmode.reg r hrax hrcx hr11]
  · exact hcall.seg.trans hmode.seg
  · exact hcall.ctl.trans hmode.ctl

/-- The program that called `syscall` goes on. Whatever mode it was in, it is in user mode now. -/
structure SyscallReturns (depth : Nat) (s u : State) : Prop where
  rip : u.rip = s.peek
  rsp : u.reg .rsp = s.reg .rsp + 8
  saved : ∀ r ∈ calleeSaved, u.reg r = s.reg r
  seg : u.seg = userSegs
  flags : u.flags = s.flags &&& 0x3c7fd7 ||| 2
  ctl : u.ctl = s.ctl
  mem : s.mem.SameBut (s.top - (24 + depth)) s.top u.mem

theorem sysret_eq (hready : SyscallReady k s.ctl) : s.sysret = { s with
    seg := Function.update (Function.update s.seg .cs userCode) .ss userData
    rip := s.reg .rcx
    flags := s.reg .r11 &&& 0x3c7fd7 ||| 2 } := by
  have hstar : (s.ctl.msr starMsr).extractLsb' 48 16 = user32Code := by
    rw [hready.star]
    decide
  have hcs : ((user32Code + 16) ||| 3 : BitVec 16) = userCode := by decide
  have hss : ((user32Code + 8) ||| 3 : BitVec 16) = userData := by decide
  unfold State.sysret
  simp only [hstar, hcs, hss]

/-- In front of `sysret`: the way back is in `rcx` and `r11` again. -/
structure Leaving (depth : Nat) (next : BitVec 64) (s t : State) : Prop where
  rcx : t.reg .rcx = next
  r11 : t.reg .r11 = s.flags
  rsp : t.reg .rsp = s.reg .rsp
  saved : ∀ r ∈ calleeSaved, t.reg r = s.reg r
  data : ∀ x, x ≠ .cs → x ≠ .ss → t.seg x = userData
  ctl : t.ctl = s.ctl
  mem : s.mem.SameBut (s.top - (24 + depth)) s.top t.mem

/-- The function has returned. -/
theorem SystemCall.leaving {depth : Nat} {next : BitVec 64} (hc : SystemCall k next s c)
    (hu : Returns depth c u) (room : 24 + depth ≤ s.top) :
    Leaving depth next s (applyAll syscallLeaveOps u) := by
  have hctop := hc.top
  have hlt : s.top < 2 ^ 64 := (s.reg .rsp).isLt
  have hutop : u.top = c.top + 8 := by
    have hdrop := State.top_drop (s := c) (by omega)
    unfold State.top at *
    rw [hu.rsp, ← hdrop, State.drop_rsp]
  have hwords : u.mem.Holds u.top ([Reg.rcx, .r11].map
      (fun r => if r = .rcx then next else s.flags) ++ []) := by
    rw [hutop]
    exact hc.holds.2.congr hu.mem (.inr (by omega))
  obtain ⟨hpopped, hothers, htop, hmem, hseg, hctl⟩ :=
    pops [.rcx, .r11] (by decide) hwords (show u.top + 8 * 2 < 2 ^ 64 by omega)
  generalize ht₁ : applyAll ([Reg.rcx, .r11].map .pop) u = t₁ at hpopped hothers htop hmem hseg hctl
  generalize ht₂ : Op.apply (.movImm16 .rax userData) t₁ = t₂
  have heq : applyAll syscallLeaveOps u = applyAll loadSegs t₂ := by
    rw [syscallLeaveOps, applyAll_append, ← ht₂, ← ht₁]
    rfl
  have hreg : ∀ r ≠ Reg.rax, (applyAll loadSegs t₂).reg r = t₁.reg r := by
    intro r hr
    rw [reg_loadSegs, ← ht₂]
    exact State.set_of_ne hr ..
  have hax : (t₂.reg .rax).setWidth 16 = userData := by
    rw [← ht₂]
    exact BitVec.setWidth_append_eq_right
  rw [heq]
  refine ⟨?_, ?_, ?_, fun r hr => ?_, fun x hcs hss => ?_, ?_, ?_⟩
  · rw [hreg .rcx (by decide)]
    exact hpopped .rcx (by decide)
  · rw [hreg .r11 (by decide), hpopped .r11 (by decide)]
    rfl
  · rw [hreg .rsp (by decide)]
    have htop₁ : t₁.top = s.top := by
      rw [htop, hutop]
      exact hctop
    exact BitVec.eq_of_toNat_eq htop₁
  · have hne : ∀ r ∈ calleeSaved, r ≠ Reg.rsp ∧ r ≠ .rax ∧ r ∉ [Reg.rcx, .r11] := by decide
    obtain ⟨hrsp, hrax, hnot⟩ := hne r hr
    rw [hreg r hrax, hothers r hnot hrsp, hu.saved r hr, hc.saved r hr]
  · rw [← hax]
    cases x <;> first | rfl | contradiction
  · rw [← ht₂]
    exact hctl.trans (hu.ctl.trans hc.ctl)
  · have hsame := (hc.mem.mono (show s.top - (24 + depth) ≤ s.top - 24 by omega)
      (Nat.le_refl _)).trans (hu.mem.mono (by omega) (by omega))
    rw [← hmem] at hsame
    rw [← ht₂]
    exact hsame

/-- `sysret` takes what is in the registers. -/
theorem Leaving.sysret {depth : Nat} {next : BitVec 64} {t : State} (h : Leaving depth next s t)
    (hready : SyscallReady k s.ctl) (rip : BitVec 64) : (t.goto rip).sysret = { t with
      seg := userSegs
      rip := next
      flags := s.flags &&& 0x3c7fd7 ||| 2 } := by
  have hseg : Function.update (Function.update (t.goto rip).seg .cs userCode) .ss userData =
      userSegs := by
    funext x
    cases x with
    | cs => rfl
    | ss => rfl
    | _ => exact h.data _ (by decide) (by decide)
  rw [sysret_eq (k := k) (s := t.goto rip) (h.ctl.symm ▸ hready), hseg, ← h.rcx, ← h.r11]
  rfl

/-- The program returns from its call of `syscall`. -/
theorem Leaving.returns {depth : Nat} {next : BitVec 64} {t : State}
    (h : Leaving depth next s t) : SyscallReturns depth s (State.ret { t with
      seg := userSegs
      rip := next
      flags := s.flags &&& 0x3c7fd7 ||| 2 }) := by
  refine ⟨?_, ?_, fun r hr => ?_, rfl, rfl, h.ctl, h.mem⟩
  · change t.mem.read (t.reg .rsp).toNat 8 = s.peek
    rw [h.rsp]
    exact h.mem.read (.inr (Nat.le_refl s.top))
  · rw [← h.rsp]
    exact State.drop_rsp t
  · have hne : ∀ r ∈ calleeSaved, r ≠ Reg.rsp := by decide
    rw [← h.saved r hr]
    exact State.set_of_ne (hne r hr) (t.reg .rsp + 8) t

/-- From the return of the function to the program. -/
theorem leave_syscall_spec {depth : Nat} (hready : SyscallReady k s.ctl)
    (hc : SystemCall k (k.sys.addr .syscall 1) s c) (hu : Returns depth c u)
    (room : 24 + depth ≤ s.top) :
    Leads k.sys.Step (fun u => u.2 = w ∧ SyscallReturns depth s u.1) (u, w) := by
  have hleave := congrFun k.code .syscallEnter
  have hrip : u.rip = k.sys.addr .syscallEnter 10 := hu.rip.trans hc.holds.1
  refine System.leads_ops _ syscallLeaveOps (l := .syscallEnter) hleave rfl hrip ?_
  have leaving := hc.leaving hu room
  generalize applyAll syscallLeaveOps u = t at leaving ⊢
  refine System.leads_instr rfl (congrArg (·[17]?) hleave) rfl ?_
  rw [leaving.sysret hready]
  have hret := congrArg (·[1]?) (congrFun k.code .syscall)
  exact System.leads_instr rfl hret rfl (.here ⟨rfl, leaving.returns⟩)

/-- The function gets the argument, and when it returns, the program goes on behind its call of
`syscall`. -/
theorem syscall_spec {f : State → W → Option W} (hready : SyscallReady k s.ctl)
    (hrip : s.rip = k.sys.addr .syscall 0) (hcompiled : k.sys.compiled (s.reg .rdi) = some f)
    (hf : ∀ c, SystemCall k (k.sys.addr .syscall 1) s c → f c w = some w')
    (room : 24 + k.sys.depth ≤ s.top) :
    Leads k.sys.Step (fun u => u.2 = w' ∧ SyscallReturns k.sys.depth s u.1) (s, w) := by
  refine enter_spec hready (congrArg (·[0]?) (congrFun k.code .syscall)) hrip (by omega) ?_
  intro c hc
  refine System.leads_compiled (hc.rip ▸ hcompiled) (hf c hc) ?_
  intro u hu
  exact leave_syscall_spec hready hc hu room

/-- What `init_syscall` leaves behind, with the code at the addresses of `placedAt`. -/
def readyControl : Control where
  msr := fun r =>
    if r = starMsr then user32Code ++ kernelCode ++ (0 : BitVec 32)
    else if r = lstarMsr then placedAt .syscallEnter 0 else 0
  gdtr := (0, 0)
  tr := 0

theorem readyControl_ready (k : Image W) (h : k.sys.addr = placedAt) :
    SyscallReady k readyControl := ⟨rfl, (congrFun (congrFun h .syscallEnter) 0).symm⟩

/-- There is a function at `0x10900` that adds its argument. -/
def addingImage : Image Nat :=
  Image.placed (fun _ _ w => w)
    (fun a => if a = 0x10900 then some fun s w => some (w + (s.reg .rdi).toNat) else none) 0x400

/-- A program calls `syscall` for this function. -/
def addingState : State where
  reg := fun r =>
    if r = .rsp then 0x17ff8 else if r = .rdi then 0x10900 else if r = .rsi then 5 else 0
  seg := userSegs
  rip := placedAt .syscall 0
  flags := 0x202
  ctl := readyControl
  mem := fun _ => 0

theorem syscall_spec_run : Leads addingImage.sys.Step
    (fun u => u.2 = 12 ∧ u.1.reg .rsp = 0x18000 ∧ u.1.seg .cs = 43 ∧ u.1.flags = 0x202)
    (addingState, 7) := by
  have hrun := @syscall_spec Nat addingImage addingState 7 12
    (fun s w => some (w + (s.reg .rdi).toNat)) (readyControl_ready _ rfl) rfl rfl
    (fun c hc => congrArg (fun v : BitVec 64 => some (7 + v.toNat)) hc.rdi) (by decide)
  refine hrun.mono ?_
  rintro u ⟨hw, hu⟩
  exact ⟨hw, hu.rsp, congrFun hu.seg .cs, hu.flags⟩

/-- A program that keeps to the calling convention has the function run on a stack that is not
aligned: there is the address behind `callReg` on it and one word for each of the two registers. -/
theorem syscall_not_aligned (hready : SyscallReady k s.ctl) (hrip : s.rip = k.sys.addr .syscall 0)
    (haligned : s.Aligned) (room : 24 ≤ s.top) :
    Leads k.sys.Step
      (fun u => u.2 = w ∧ u.1.rip = s.reg .rdi ∧ u.1.reg .rdi = s.reg .rsi ∧ ¬u.1.Aligned)
      (s, w) := by
  refine enter_spec hready (congrArg (·[0]?) (congrFun k.code .syscall)) hrip room ?_
  intro c hc
  refine .here ⟨rfl, hc.rip, hc.rdi, ?_⟩
  have htop := hc.top
  intro (hentry : (c.top + 8) % 16 = 0)
  unfold State.Aligned at haligned
  omega

theorem syscall_not_aligned_run : Leads addingImage.sys.Step
    (fun u => u.2 = 7 ∧ u.1.rip = 0x10900 ∧ u.1.reg .rdi = 5 ∧ ¬u.1.Aligned) (addingState, 7) :=
  syscall_not_aligned (k := addingImage) (s := addingState) (readyControl_ready _ rfl) rfl
    (by decide) (by decide)

end BadOs
