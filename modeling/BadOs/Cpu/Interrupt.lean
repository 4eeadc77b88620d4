import BadOs.Cpu.Entry

/-!
# Interrupts

From the gate of an interrupt to `iretq`: the stubs of `entry.asm` build a `registers_t` on the
stack, call the C function that looks up the handler, and take everything back. The program that was
interrupted does not notice.
-/

namespace BadOs

open X86 Transition

/-! ## `interrupt.h` and `interrupt.c` -/

/-- `registers_t`. -/
structure Registers where
  ss : BitVec 64
  ds : BitVec 64
  es : BitVec 64
  fs : BitVec 64
  gs : BitVec 64
  rdi : BitVec 64
  rsi : BitVec 64
  rax : BitVec 64
  rbx : BitVec 64
  rcx : BitVec 64
  rdx : BitVec 64
  r8 : BitVec 64
  r9 : BitVec 64
  r10 : BitVec 64
  r11 : BitVec 64
  r12 : BitVec 64
  r13 : BitVec 64
  r14 : BitVec 64
  r15 : BitVec 64
  rbp : BitVec 64
  errorCode : BitVec 64
  rip : BitVec 64
  cs : BitVec 64
  rflags : BitVec 64
  deriving DecidableEq

/-- The structure at an address. -/
def Registers.read (m : ByteMem) (a : Nat) : Registers :=
  let field := fun i => m.read (a + 8 * i) 8
  { ss := field 0, ds := field 1, es := field 2, fs := field 3, gs := field 4, rdi := field 5
    rsi := field 6, rax := field 7, rbx := field 8, rcx := field 9, rdx := field 10, r8 := field 11
    r9 := field 12, r10 := field 13, r11 := field 14, r12 := field 15, r13 := field 16
    r14 := field 17, r15 := field 18, rbp := field 19, errorCode := field 20, rip := field 21
    cs := field 22, rflags := field 23 }

/-- An entry of `interrupt_handlers`. A handler that does not return has no result. -/
structure Handler (U W : Type) where
  fn : Option (Registers → U → W → Option W)
  user : U

section

variable {U W : Type}

/-- `register_interrupt_handler`. -/
def registerInterruptHandler (n : BitVec 8) (handler : Registers → U → W → Option W) (user : U)
    (handlers : BitVec 8 → Handler U W) : BitVec 8 → Handler U W :=
  Function.update handlers n ⟨some handler, user⟩

/-- `isr_handler`; without a handler it ends in `panic`. -/
def isrHandler (handlers : BitVec 8 → Handler U W) (n : BitVec 8) (regs : Registers) (w : W) :
    Option W :=
  match (handlers n).fn with
  | some handler => handler regs (handlers n).user w
  | none => none

/-- `irq_handler`. -/
def irqHandler (handlers : BitVec 8 → Handler U W) (intNo : BitVec 8) (regs : Registers) (w : W) :
    Option W :=
  match (handlers intNo).fn with
  | some handler => handler regs (handlers intNo).user w
  | none => some w

end

/-! ## What a handler sees -/

/-- What was interrupted, as the handler gets it. The stack segment is the handler's own. -/
def savedRegisters (s : State) (errorCode : BitVec 64) : Registers where
  ss := s.interruptSegment.setWidth 64
  ds := (s.seg .ds).setWidth 64
  es := (s.seg .es).setWidth 64
  fs := (s.seg .fs).setWidth 64
  gs := (s.seg .gs).setWidth 64
  rdi := s.reg .rdi
  rsi := s.reg .rsi
  rax := s.reg .rax
  rbx := s.reg .rbx
  rcx := s.reg .rcx
  rdx := s.reg .rdx
  r8 := s.reg .r8
  r9 := s.reg .r9
  r10 := s.reg .r10
  r11 := s.reg .r11
  r12 := s.reg .r12
  r13 := s.reg .r13
  r14 := s.reg .r14
  r15 := s.reg .r15
  rbp := s.reg .rbp
  errorCode := errorCode
  rip := s.rip
  cs := (s.seg .cs).setWidth 64
  rflags := s.flags

/-- The words on the stack while the handler runs. -/
def savedWords (s : State) (errorCode : BitVec 64) : List (BitVec 64) :=
  (pushedSegs.reverse.map fun x =>
      (if x = .ss then s.interruptSegment else s.seg x).setWidth 64) ++
    (poppedRegs.map s.reg ++
      [errorCode, s.rip, (s.seg .cs).setWidth 64, s.flags, s.reg .rsp, (s.seg .ss).setWidth 64])

theorem length_savedWords (s : State) (errorCode : BitVec 64) :
    (savedWords s errorCode).length = 26 := rfl

/-- The fields of `registers_t` are where the stub put the words. -/
theorem read_savedWords {m : ByteMem} {a : Nat} {s : State} {errorCode : BitVec 64}
    (h : m.Holds a (savedWords s errorCode)) :
    Registers.read m a = savedRegisters s errorCode := by
  simp only [savedWords, pushedSegs, poppedRegs, List.reverse_cons, List.reverse_nil,
    List.nil_append, List.cons_append, List.map_cons, List.map_nil, ByteMem.holds_cons,
    ByteMem.holds_nil, and_true, if_true, reduceCtorEq, if_false, Nat.add_assoc, Nat.reduceAdd] at h
  obtain ⟨h0, h1, h2, h3, h4, h5, h6, h7, h8, h9, h10, h11, h12, h13, h14, h15, h16, h17, h18, h19,
    h20, h21, h22, h23, -, -⟩ := h
  simp only [Registers.read, savedRegisters, Nat.mul_zero, Nat.add_zero, Nat.reduceMul, h0, h1, h2,
    h3, h4, h5, h6, h7, h8, h9, h10, h11, h12, h13, h14, h15, h16, h17, h18, h19, h20, h21, h22,
    h23]

/-! ## The stubs -/

section

variable {s t : State} {gate : Gate} {rsp0 : BitVec 64} {code : Option (BitVec 64)} {low : Nat}

theorem reg_interrupt {r : Reg} (hr : r ≠ .rsp) : (s.interrupt gate rsp0 code).reg r = s.reg r := by
  have hpush : ∀ (v : BitVec 64) (t : State), (t.push v).reg r = t.reg r :=
    fun v t => State.set_of_ne hr (t.reg .rsp - 8) t
  have henter : (s.enterGate gate rsp0).reg r = s.reg r := Function.update_of_ne hr ..
  cases code with
  | none =>
      simp only [State.interrupt, hpush]
      exact henter
  | some e =>
      simp only [State.interrupt, hpush]
      exact henter

theorem seg_enterGate {x : Seg} (hx : x ≠ .cs) : (s.enterGate gate rsp0).seg x =
    if x = .ss then s.interruptSegment else s.seg x := by
  have henter : (s.enterGate gate rsp0).seg x =
      Function.update s.seg .ss s.interruptSegment x := Function.update_of_ne hx ..
  rw [henter]
  by_cases h : x = .ss
  · subst h
    rw [Function.update_self, if_pos rfl]
  · rw [Function.update_of_ne h, if_neg h]

/-- After `PUSH_ALL` the stack has the same words whether or not the processor pushed an error
code. -/
theorem stub_spec (low : Nat) (s : State) (gate : Gate) (rsp0 : BitVec 64)
    (code : Option (BitVec 64)) (err : Bool) (vector : BitVec 64) (herr : code.isSome = err)
    (room : low + 208 ≤ (s.enterGate gate rsp0).top) :
    let t := applyAll (stub err vector) (s.interrupt gate rsp0 code)
    Pushed low (s.enterGate gate rsp0) t (savedWords s (code.getD 0)) ∧ t.reg .rdi = vector ∧
      t.reg .rsi = t.reg .rsp := by
  let b := s.enterGate gate rsp0
  have hroom : low + 208 ≤ b.top := room
  let s₁ := Op.cli.apply (s.interrupt gate rsp0 code)
  let s₂ := applyAll (if err then [] else [.pushImm 0]) s₁
  let s₃ := applyAll (pushedRegs.map .push) s₂
  let s₄ := applyAll (pushSegs .rcx pushedSegs) s₃
  have h₁ : Pushed low b s₁ (code.toList ++
      [s.rip, (s.seg .cs).setWidth 64, s.flags, s.reg .rsp, (s.seg .ss).setWidth 64]) :=
    (Pushed.interrupt gate rsp0 code s (by omega)).congr rfl rfl rfl rfl
  have h₂ : Pushed low b s₂ (code.getD 0 ::
      [s.rip, (s.seg .cs).setWidth 64, s.flags, s.reg .rsp, (s.seg .ss).setWidth 64]) := by
    cases code with
    | none =>
        subst herr
        have htop : s₁.top + 8 * 5 = b.top := h₁.top
        exact h₁.push (by omega) 0
    | some e =>
        subst herr
        exact h₁
  have hregs : ∀ r ≠ Reg.rsp, s₂.reg r = s.reg r := by
    intro r hr
    have hsame : (s.interrupt gate rsp0 code).reg r = s.reg r := reg_interrupt hr
    refine Eq.trans ?_ hsame
    cases err with
    | false => exact State.set_of_ne hr (s₁.reg .rsp - 8) s₁
    | true => rfl
  have htop₂ : s₂.top + 8 * 6 = b.top := h₂.top
  have h₃ := h₂.pushes (pushedRegs.map s₂.reg) (show low + 8 * 15 ≤ s₂.top by omega)
  rw [← applyAll_push pushedRegs (by decide), ← List.map_reverse] at h₃
  have htop₃ : s₃.top + 8 * 21 = b.top := h₃.top
  have h₄ := Pushed.pushSegs (d := .rcx) (by decide) pushedSegs h₃
    (show low + 8 * 5 ≤ s₃.top by omega)
  have hwords : pushedSegs.reverse.map (fun x => (b.seg x).setWidth 64) ++
      (pushedRegs.reverse.map s₂.reg ++ code.getD 0 ::
        [s.rip, (s.seg .cs).setWidth 64, s.flags, s.reg .rsp, (s.seg .ss).setWidth 64]) =
      savedWords s (code.getD 0) := by
    have hsegs : pushedSegs.reverse.map (fun x => (b.seg x).setWidth 64) =
        pushedSegs.reverse.map fun x =>
          ((if x = .ss then s.interruptSegment else s.seg x).setWidth 64 : BitVec 64) := by
      apply List.map_congr_left
      intro x hx
      rw [show b.seg x = _ from seg_enterGate (by rintro rfl; revert hx; decide)]
    have hmap : pushedRegs.reverse.map s₂.reg = poppedRegs.map s.reg := by
      apply List.map_congr_left
      intro r hr
      apply hregs
      rintro rfl
      revert hr
      decide
    rw [hsegs, hmap]
    rfl
  rw [hwords] at h₄
  have h₅ := (h₄.set (r := .rsi) (by decide) (s₄.reg .rsp)).set (r := .rdi) (by decide) vector
  have heq : applyAll (stub err vector) (s.interrupt gate rsp0 code) =
      (s₄.set .rsi (s₄.reg .rsp)).set .rdi vector := by
    simp only [stub, pushAll, applyAll_append]
    rfl
  intro t
  have ht : t = (s₄.set .rsi (s₄.reg .rsp)).set .rdi vector := heq
  rw [ht]
  refine ⟨h₅, State.set_self .., ?_⟩
  rw [State.set_of_ne (by decide), State.set_self, State.set_of_ne (by decide),
    State.set_of_ne (by decide)]

theorem setWidth_setWidth (v : BitVec 16) : (v.setWidth 64).setWidth 16 = v := by
  rw [BitVec.setWidth_setWidth_of_le _ (by decide), BitVec.setWidth_eq]

/-- What `POP_ALL` and `iretq` take from the stack is what was interrupted. -/
theorem leave_spec {errorCode : BitVec 64} (h : t.mem.Holds t.top (savedWords s errorCode))
    (room : t.top + 208 < 2 ^ 64) :
    let u := (applyAll (popAll ++ [.sti]) t).iretq
    u.reg = s.reg ∧ u.seg = s.seg ∧ u.rip = s.rip ∧ u.flags = s.flags ∧ u.mem = t.mem ∧
      u.ctl = t.ctl := by
  let g : Seg → BitVec 64 := fun x => (s.seg x).setWidth 64
  let tail : List (BitVec 64) :=
    [s.rip, (s.seg .cs).setWidth 64, s.flags, s.reg .rsp, (s.seg .ss).setWidth 64]
  obtain ⟨t₁, ht₁⟩ : ∃ t₁, t₁ = Op.apply (.pop .rcx) t := ⟨_, rfl⟩
  obtain ⟨t₂, ht₂⟩ : ∃ t₂, t₂ = applyAll (popSegs .rcx poppedSegs) t₁ := ⟨_, rfl⟩
  obtain ⟨t₃, ht₃⟩ : ∃ t₃, t₃ = applyAll (poppedRegs.map .pop) t₂ := ⟨_, rfl⟩
  have hmem₁ : t₁.mem = t.mem := by
    rw [ht₁]
    rfl
  have htop₁ : t₁.top = t.top + 8 := by
    rw [ht₁, ← State.top_drop (by omega)]
    exact State.top_set (by decide) ..
  have h₁ : t₁.mem.Holds t₁.top (poppedSegs.map g ++ (poppedRegs.map s.reg ++ errorCode :: tail)) :=
    hmem₁ ▸ htop₁ ▸ h.2
  obtain ⟨hsegs, -, htop₂, hmem₂, hctl₂⟩ :=
    popSegs_spec (d := .rcx) (by decide) poppedSegs h₁ (show t₁.top + 8 * 4 < 2 ^ 64 by omega)
  rw [← ht₂] at hsegs htop₂ hmem₂ hctl₂
  have h₂ : t₂.mem.Holds t₂.top (poppedRegs.map s.reg ++ errorCode :: tail) := by
    rw [hmem₂, htop₂]
    exact (ByteMem.holds_append.mp h₁).2
  change t₂.top = t₁.top + 8 * 4 at htop₂
  obtain ⟨hregs, -, htop₃, hmem₃, hseg₃, hctl₃⟩ :=
    pops poppedRegs (by decide) h₂ (show t₂.top + 8 * 15 < 2 ^ 64 by omega)
  rw [← ht₃] at hregs htop₃ hmem₃ hseg₃ hctl₃
  have h₃ : t₃.mem.Holds t₃.top (errorCode :: tail) := by
    rw [hmem₃, htop₃]
    exact (ByteMem.holds_append.mp h₂).2
  change t₃.top = t₂.top + 8 * 15 at htop₃
  have htop₄ : t₃.drop.top = t₃.top + 8 := State.top_drop (by omega)
  have h₄ : t₃.mem.Holds t₃.drop.top tail := by
    rw [htop₄]
    exact h₃.2
  have heq : applyAll (popAll ++ [.sti]) t = Op.sti.apply t₃.drop := by
    rw [popAll, applyAll_append, applyAll_append, applyAll_append, applyAll_append, ht₃, ht₂, ht₁]
    rfl
  rw [heq, State.iretq_eq (s := Op.sti.apply t₃.drop) h₄]
  refine ⟨?_, ?_, rfl, rfl, hmem₃.trans (hmem₂.trans hmem₁), hctl₃.trans (hctl₂.trans ?_)⟩
  · funext r
    by_cases hr : r = .rsp
    · subst hr
      exact State.set_self .rsp (s.reg .rsp) (Op.sti.apply t₃.drop)
    · have hin : r ∈ poppedRegs := by
        revert hr
        cases r <;> decide
      refine (State.set_of_ne hr (s.reg .rsp) (Op.sti.apply t₃.drop)).trans ?_
      exact (State.set_of_ne hr (t₃.reg .rsp + 8) t₃).trans (hregs r hin)
  · funext x
    dsimp only
    rw [setWidth_setWidth, setWidth_setWidth]
    by_cases hx : x = .ss
    · subst hx
      rw [Function.update_self]
    · by_cases hx' : x = .cs
      · subst hx'
        rw [Function.update_of_ne hx, Function.update_self]
      · have hin : x ∈ poppedSegs := by
          revert hx hx'
          cases x <;> decide
        rw [Function.update_of_ne hx, Function.update_of_ne hx', ← setWidth_setWidth (s.seg x),
          ← hsegs x hin]
        exact congrFun hseg₃ x
  · rw [ht₁]
    rfl

end

/-! ## From the gate to the end -/

/-- A C function with the arguments of a handler. It relies on an aligned stack, and on it that no
interrupt comes. -/
def handlerCall {W : Type} (f : BitVec 8 → Registers → W → Option W) (s : State) (w : W) :
    Option W :=
  if s.Aligned ∧ s.flags.getLsbD interruptFlag = false then
    f ((s.reg .rdi).setWidth 8) (Registers.read s.mem (s.reg .rsi).toNat) w
  else none

/-- `isr_handler` and `irq_handler` are where the assembly code calls them. -/
structure Image.Dispatches {U W : Type} (k : Image W) (handlers : BitVec 8 → Handler U W) :
    Prop where
  isr : k.sys.compiled k.sym.isrHandler = some (handlerCall (isrHandler handlers))
  irq : k.sys.compiled k.sym.irqHandler = some (handlerCall (irqHandler handlers))

/-- The program goes on in `t` where it was in `s`. Only the memory of `[low, high)` differs. -/
structure Resumes (low high : Nat) (s t : State) : Prop where
  reg : t.reg = s.reg
  seg : t.seg = s.seg
  rip : t.rip = s.rip
  flags : t.flags = s.flags
  ctl : t.ctl = s.ctl
  mem : s.mem.SameBut low high t.mem

section

variable {U W : Type} {k : Image W} {handlers : BitVec 8 → Handler U W} {s b t : State} {w w' : W}
  {low : Nat} {l : Label} {errorCode vector : BitVec 64}

/-- The call of the C function, and all behind it. -/
theorem handle_spec (before : List Instr) {i : Nat} {target : BitVec 64}
    {handler : BitVec 8 → Registers → W → Option W}
    (hcode : k.sys.code l = before ++ [.call target] ++ leave) (hi : before.length = i)
    (hcompiled : k.sys.compiled target = some (handlerCall handler))
    (hpushed : Pushed low b t (savedWords s errorCode)) (haligned : b.top % 16 = 0)
    (hoff : t.flags.getLsbD interruptFlag = false) (hmem : b.mem = s.mem)
    (hctl : b.ctl = s.ctl) (hrdi : t.reg .rdi = vector) (hrsi : t.reg .rsi = t.reg .rsp)
    (hrip : t.rip = k.sys.addr l i) (room : low + 8 + k.sys.depth ≤ t.top)
    (hw : handler (vector.setWidth 8) (savedRegisters s errorCode) w = some w') :
    Leads k.sys.Step (fun u => u.2 = w' ∧ Resumes low b.top s u.1) (t, w) := by
  have hget : (k.sys.code l)[i]? = some (.call target) := by
    rw [hcode, List.append_assoc, List.getElem?_append_right hi.le, hi, Nat.sub_self]
    rfl
  refine System.leads_instr hrip hget rfl ?_
  have hcall := hpushed.push (by omega) (k.sys.addr l (i + 1))
  have htop := State.top_push (s := t) (by omega) (k.sys.addr l (i + 1))
  obtain ⟨c, hc⟩ : ∃ c, c = t.callTo target (k.sys.addr l (i + 1)) := ⟨_, rfl⟩
  have hpushed' : Pushed low b c (k.sys.addr l (i + 1) :: savedWords s errorCode) := by
    rw [hc]
    exact hcall.congr rfl rfl rfl rfl
  have hcreg : ∀ r ≠ Reg.rsp, c.reg r = t.reg r := by
    intro r hr
    rw [hc]
    exact State.set_of_ne hr (t.reg .rsp - 8) t
  have hctop : c.top = t.top - 8 := by
    rw [hc]
    exact htop
  have hregs : Registers.read c.mem (c.reg .rsi).toNat = savedRegisters s errorCode := by
    apply read_savedWords
    have haddr : (c.reg .rsi).toNat = c.top + 8 := by
      rw [hcreg .rsi (by decide), hrsi, hctop]
      change t.top = t.top - 8 + 8
      omega
    rw [haddr]
    exact hpushed'.holds.2
  have hf : handlerCall handler c w = some w' := by
    have hentry : c.Aligned ∧ c.flags.getLsbD interruptFlag = false := by
      have htop' := hpushed.top
      rw [length_savedWords] at htop'
      refine ⟨?_, ?_⟩
      · unfold State.Aligned
        omega
      · rw [hc]
        exact hoff
    rw [handlerCall, if_pos hentry, hregs, hcreg .rdi (by decide), hrdi]
    exact hw
  have hcompiled' : k.sys.compiled c.rip = some (handlerCall handler) := by
    rw [hc]
    exact hcompiled
  rw [← hc]
  refine System.leads_compiled hcompiled' hf ?_
  intro c' hreturns
  obtain ⟨hsaved, hrip'⟩ := hpushed'.returns hreturns (by omega)
  have htop' := hsaved.top
  rw [length_savedWords] at htop'
  have hlt : b.top < 2 ^ 64 := (b.reg .rsp).isLt
  have hcode' : k.sys.code l =
      (before ++ [.call target]) ++ straight (popAll ++ [.sti]) ++ [.iretq] := by
    rw [hcode, leave, List.append_assoc _ (straight _)]
  refine System.leads_ops _ (popAll ++ [.sti]) hcode' ?_ hrip' ?_
  · rw [List.length_append, hi]
    rfl
  have hlength : (before ++ [Instr.call target] ++ straight (popAll ++ [Op.sti])).length =
      i + 1 + (popAll ++ [Op.sti]).length := by
    rw [List.length_append, List.length_append, hi, List.length_map]
    rfl
  have hiretq : (k.sys.code l)[i + 1 + (popAll ++ [Op.sti]).length]? = some .iretq := by
    rw [hcode', List.getElem?_append_right hlength.le, hlength, Nat.sub_self]
    rfl
  obtain ⟨hreg, hseg, hrip, hflags, hmem', hctl'⟩ := leave_spec hsaved.holds (by omega)
  obtain ⟨u, hu⟩ : ∃ u, u = applyAll (popAll ++ [.sti]) c' := ⟨_, rfl⟩
  rw [← hu] at hreg hseg hrip hflags hmem' hctl' ⊢
  refine System.leads_instr rfl hiretq rfl (.here ⟨rfl, ?_⟩)
  exact ⟨hreg, hseg, hrip, hflags, hctl'.trans (hsaved.ctl.trans hctl),
    hmem'.symm ▸ hmem ▸ hsaved.mem⟩

variable {gate : Gate} {rsp0 : BitVec 64}

theorem top_enterGate : (s.enterGate gate rsp0).top = (s.interruptStack rsp0).toNat := by
  unfold State.top State.enterGate
  dsimp only
  rw [Function.update_self]

theorem interruptStack_aligned : (s.interruptStack rsp0).toNat % 16 = 0 := by
  have hlow : ∀ v : BitVec 64, (v &&& ~~~15).toNat % 16 = 0 := by
    intro v
    have hmask : ((v &&& ~~~15).setWidth 4).toNat = 0 := by
      have hzero : (v &&& ~~~15).setWidth 4 = (0 : BitVec 4) := by
        apply BitVec.eq_of_getLsbD_eq
        intro i hi
        have hbit : (~~~15 : BitVec 64).getLsbD i = false := by
          revert i
          decide
        rw [BitVec.getLsbD_setWidth, BitVec.getLsbD_and, hbit, Bool.and_false, Bool.and_false]
        exact BitVec.getLsbD_zero.symm
      rw [hzero]
      rfl
    rwa [BitVec.toNat_setWidth] at hmask
  exact hlow _

/-- A stub leaves interrupts off. -/
theorem interruptFlag_stub (err : Bool) (vector : BitVec 64) (s : State) :
    (applyAll (stub err vector) s).flags.getLsbD interruptFlag = false := by
  have hflags : (applyAll (stub err vector) s).flags = setFlag interruptFlag false s.flags := by
    cases err <;> rfl
  rw [hflags, getLsbD_setFlag (by decide) (by decide), if_pos rfl]

theorem rip_interrupt (code : Option (BitVec 64)) :
    (s.interrupt gate rsp0 code).rip = gate.offset := by
  cases code <;> rfl

/-- A stub up to the jump at its end. -/
theorem leads_stub {Q : State × W → Prop} {code : Option (BitVec 64)} (err : Bool)
    {target : BitVec 64} (hcode : k.sys.code l = straight (stub err vector) ++ [.jmp target])
    (hgate : gate.offset = k.sys.addr l 0)
    (h : Leads k.sys.Step Q
      ((applyAll (stub err vector) (s.interrupt gate rsp0 code)).goto target, w)) :
    Leads k.sys.Step Q (s.interrupt gate rsp0 code, w) := by
  refine System.leads_ops [] (stub err vector) hcode rfl
    ((rip_interrupt code).trans hgate) ?_
  have hjmp : (k.sys.code l)[0 + (stub err vector).length]? = some (.jmp target) := by
    rw [hcode, List.getElem?_append_right] <;> rw [List.length_map, Nat.zero_add]
    rw [Nat.sub_self]
    rfl
  exact System.leads_instr rfl hjmp rfl h

/-- An exception: the handler gets what was interrupted, and if it returns, that goes on. -/
theorem isr_spec (hk : k.Dispatches handlers) (n : Fin 32) (code : Option (BitVec 64))
    (herr : code.isSome = decide (n.val ∈ isrErr)) (hgate : gate.offset = k.sys.addr (.isr n) 0)
    (room : low + 216 + k.sys.depth ≤ (s.interruptStack rsp0).toNat)
    (hw : isrHandler handlers (BitVec.ofNat 8 n) (savedRegisters s (code.getD 0)) w = some w') :
    Leads k.sys.Step
      (fun u => u.2 = w' ∧ Resumes low (s.interruptStack rsp0).toNat s u.1)
      (s.interrupt gate rsp0 code, w) := by
  have hcode := congrFun k.code
  refine leads_stub _ (hcode (.isr n)) hgate ?_
  have htop : (s.enterGate gate rsp0).top = (s.interruptStack rsp0).toNat := top_enterGate
  obtain ⟨hpushed, hrdi, hrsi⟩ := stub_spec low s gate rsp0 code
    (decide (n.val ∈ isrErr)) (BitVec.ofNat 64 n) herr (by omega)
  have hroom := hpushed.top
  rw [length_savedWords] at hroom
  have hgoto := hpushed.congr (t := (applyAll (stub (decide (n.val ∈ isrErr)) (BitVec.ofNat 64 n))
    (s.interrupt gate rsp0 code)).goto (k.sys.addr .isrCommon 0)) rfl rfl rfl rfl
  rw [← htop]
  refine handle_spec [] (hcode .isrCommon) rfl hk.isr hgoto
    (htop ▸ interruptStack_aligned) (interruptFlag_stub ..) rfl rfl hrdi hrsi rfl ?_ ?_
  · change low + 8 + k.sys.depth ≤ State.top (applyAll _ _)
    omega
  · rw [BitVec.setWidth_ofNat_of_le (by decide)]
    exact hw

/-- The interrupt controllers hear of the end of the interrupt, the second one if it is from
there. -/
def endOfInterrupt (devices : BitVec 8 → BitVec 8 → W → W) (n : Fin 16) (w : W) : W :=
  devices 0x20 0x20 (if n.val ≤ 7 then w else devices 0xa0 0x20 w)

/-- Whether `irq_common` jumps. -/
theorem irq_compare (n : Fin 16) (f : BitVec 64) :
    lessOrEqual (compareFlags ((BitVec.ofNat 64 (32 + n)).setWidth 32) 39 f) =
      decide (n.val ≤ 7) := by
  rw [lessOrEqual_compareFlags]
  revert n
  decide

/-- A hardware interrupt: the controllers hear of it, the handler gets what was interrupted, if
there is one, and what was interrupted goes on. -/
theorem irq_spec (hk : k.Dispatches handlers) (n : Fin 16)
    (hgate : gate.offset = k.sys.addr (.irq n) 0)
    (room : low + 216 + k.sys.depth ≤ (s.interruptStack rsp0).toNat)
    (hw : irqHandler handlers (BitVec.ofNat 8 (32 + n)) (savedRegisters s 0)
      (endOfInterrupt k.sys.devices n w) = some w') :
    Leads k.sys.Step
      (fun u => u.2 = w' ∧ Resumes low (s.interruptStack rsp0).toNat s u.1)
      (s.interrupt gate rsp0 none, w) := by
  have hcode := congrFun k.code
  refine leads_stub _ (hcode (.irq n)) hgate ?_
  have htop : (s.enterGate gate rsp0).top = (s.interruptStack rsp0).toNat := top_enterGate
  obtain ⟨hpushed, hrdi, hrsi⟩ := stub_spec low s gate rsp0 none false
    (BitVec.ofNat 64 (32 + n)) rfl (by omega)
  obtain ⟨t, ht⟩ : ∃ t, t = applyAll (stub false (BitVec.ofNat 64 (32 + n)))
    (s.interrupt gate rsp0 none) := ⟨_, rfl⟩
  rw [← ht] at hpushed hrdi hrsi ⊢
  have hroom := hpushed.top
  rw [length_savedWords] at hroom
  -- `al` is written and `edi` compared.
  let al := (t.reg .rax).extractLsb' 8 56 ++ (0x20 : BitVec 8)
  let flags := compareFlags ((t.reg .rdi).setWidth 32) 39 t.flags
  refine System.leads_ops [] [.movImm8 .rax 0x20, .cmpImm32 .rdi 39] (hcode .irqCommon)
    rfl rfl ?_
  have hoff : flags.getLsbD interruptFlag = false := by
    have hstub := interruptFlag_stub false (BitVec.ofNat 64 (32 + n)) (s.interrupt gate rsp0 none)
    rw [← ht] at hstub
    rw [getLsbD_compareFlags (by decide) (by decide) (by decide) (by decide), hstub]
  -- From `reset_master` on it is the same for all.
  have hreset : ∀ u, u.reg = Function.update t.reg .rax al → u.mem = t.mem → u.seg = t.seg →
      u.ctl = t.ctl → u.flags = flags → u.rip = k.sys.addr .resetMaster 0 → ∀ v,
      irqHandler handlers (BitVec.ofNat 8 (32 + n)) (savedRegisters s 0)
        (k.sys.devices 0x20 0x20 v) = some w' →
      Leads k.sys.Step (fun u => u.2 = w' ∧ Resumes low (s.interruptStack rsp0).toNat s u.1)
        (u, v) := by
    intro u hreg hmem hseg hctl hflags hrip v hv
    have hureg : ∀ r ≠ Reg.rax, u.reg r = t.reg r := by
      intro r hr
      rw [hreg, Function.update_of_ne hr]
    refine System.leads_instr (i := 0) hrip (congrArg (·[0]?) (hcode .resetMaster)) rfl ?_
    have hal : (u.reg .rax).setWidth 8 = (0x20 : BitVec 8) := by
      rw [hreg, Function.update_self]
      exact BitVec.setWidth_append_eq_right
    have hpushed' := hpushed.congr (t := u.goto (k.sys.addr .resetMaster 1))
      (hureg .rsp (by decide)) hmem hseg hctl
    rw [hal, ← htop]
    refine handle_spec [.out 0x20] (hcode .resetMaster) rfl hk.irq hpushed'
      (htop ▸ interruptStack_aligned) (hflags ▸ hoff) rfl rfl
      ((hureg .rdi (by decide)).trans hrdi) ?_ rfl ?_ ?_
    · exact (hureg .rsi (by decide)).trans (hrsi.trans (hureg .rsp (by decide)).symm)
    · have hutop : ∀ a, (u.goto a).top = t.top := fun _ =>
        congrArg BitVec.toNat (hureg .rsp (by decide))
      rw [hutop]
      omega
    · rw [BitVec.setWidth_ofNat_of_le (by decide)]
      exact hv
  refine System.leads_instr (i := 2) rfl (congrArg (·[2]?) (hcode .irqCommon)) rfl ?_
  have hjump : lessOrEqual flags = decide (n.val ≤ 7) := by
    have hcompare := irq_compare n t.flags
    rwa [← hrdi] at hcompare
  change Leads _ _ (State.goto (if lessOrEqual flags then _ else _) _, w)
  unfold endOfInterrupt at hw
  rw [hjump]
  by_cases hn : n.val ≤ 7
  · rw [if_pos hn] at hw
    rw [decide_eq_true hn, if_pos rfl]
    refine hreset _ ?_ ?_ ?_ ?_ ?_ ?_ w hw <;> rfl
  · rw [if_neg hn] at hw
    rw [decide_eq_false hn, if_neg Bool.false_ne_true]
    refine System.leads_instr (i := 3) rfl (congrArg (·[3]?) (hcode .irqCommon)) rfl ?_
    refine System.leads_instr (i := 4) rfl (congrArg (·[4]?) (hcode .irqCommon)) rfl ?_
    have hal : (Function.update t.reg .rax al .rax).setWidth 8 = (0x20 : BitVec 8) := by
      rw [Function.update_self]
      exact BitVec.setWidth_append_eq_right
    change Leads _ _ (_, k.sys.devices 0xa0 ((Function.update t.reg .rax al .rax).setWidth 8) w)
    rw [hal]
    refine hreset _ ?_ ?_ ?_ ?_ ?_ ?_ _ hw <;> rfl

end

end BadOs
