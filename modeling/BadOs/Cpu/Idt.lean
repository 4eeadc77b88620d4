import BadOs.Cpu.Interrupt

/-!
# The interrupt descriptor table

The table is at address 0. `init_interrupts` has `create_gate` store an entry for each stub that it
declares, 16 for hardware interrupts and 20 for exceptions. With the table that it leaves, each of
these interrupts gets to its handler and back.
-/

namespace BadOs

open X86 Transition

/-- The entry that `create_gate` makes for a function. -/
def gateOf (fn : BitVec 64) : Gate := ⟨fn, kernelCode, 0, 0x8e⟩

/-- The entry with number `v` is at `16 * v`. -/
def idtEntry (m : ByteMem) (v : Nat) : Gate := Gate.read m (16 * v)

/-! ## `create_gate` -/

/-- What `create_gate` does to the memory. -/
def createGate (n : Nat) (fn : BitVec 64) (m : ByteMem) : ByteMem := (gateOf fn).write (16 * n) m

theorem idtEntry_createGate (n v : Nat) (fn : BitVec 64) (m : ByteMem) :
    idtEntry (createGate n fn m) v = if v = n then gateOf fn else idtEntry m v := by
  unfold idtEntry createGate
  by_cases h : v = n
  · subst h
    rw [if_pos rfl, Gate.read_write]
  · rw [if_neg h]
    apply Gate.read_congr
    intro x hlo hhi
    exact Gate.write_sameBut _ _ _ x (by omega)

section

variable (fn : BitVec 64) (b : BitVec 8)

/-- `rax` while the type is in `al`. -/
abbrev withType : BitVec 64 :=
  (fn.extractLsb' 16 48 ++ (0 : BitVec 16) : BitVec 64).extractLsb' 8 56 ++ b

theorem withType_mid : (withType fn b >>> 16).setWidth 16 = fn.extractLsb' 16 16 := by
  apply BitVec.eq_of_getLsbD_eq
  intro i hi
  simp only [withType, BitVec.getLsbD_setWidth, BitVec.getLsbD_ushiftRight, BitVec.getLsbD_append,
    BitVec.getLsbD_extractLsb']
  simp [hi, show ¬16 + i < 8 by omega, show 16 + i - 8 < 56 by omega,
    show ¬8 + (16 + i - 8) < 16 by omega, show 8 + (16 + i - 8) - 16 = i by omega,
    show i < 48 by omega]

theorem withType_high : (withType fn b >>> 16 >>> 16).setWidth 32 = fn.extractLsb' 32 32 := by
  apply BitVec.eq_of_getLsbD_eq
  intro i hi
  simp only [withType, BitVec.getLsbD_setWidth, BitVec.getLsbD_ushiftRight, BitVec.getLsbD_append,
    BitVec.getLsbD_extractLsb']
  simp [hi, show ¬16 + (16 + i) < 8 by omega, show 16 + (16 + i) - 8 < 56 by omega,
    show ¬8 + (16 + (16 + i) - 8) < 16 by omega,
    show 16 + (8 + (16 + (16 + i) - 8) - 16) = 32 + i by omega,
    show 8 + (16 + (16 + i) - 8) - 16 < 48 by omega]

end

/-- The instructions of `create_gate` store the entry. -/
theorem mem_createGateOps (s : State) {n : Nat} (hn : n < 256)
    (hrdi : s.reg .rdi = BitVec.ofNat 64 n) :
    (applyAll createGateOps s).mem = createGate n (s.reg .rsi) s.mem := by
  have haddr : ∀ k < 16, (s.reg .rdi <<< 4 + BitVec.ofNat 64 k).toNat = 16 * n + k := by
    intro k hk
    rw [hrdi, BitVec.toNat_add, BitVec.toNat_shiftLeft, BitVec.toNat_ofNat, BitVec.toNat_ofNat,
      Nat.shiftLeft_eq]
    omega
  have hbase : (s.reg .rdi <<< 4).toNat = 16 * n := by
    have h := haddr 0 (by decide)
    rwa [BitVec.add_zero, Nat.add_zero] at h
  unfold createGateOps
  simp only [applyAll_cons, applyAll_nil, Op.apply, State.set, Function.update_self, ne_eq,
    reduceCtorEq, not_false_eq_true, Function.update_of_ne, BitVec.add_assoc, BitVec.reduceAdd]
  rw [hbase, haddr 2 (by decide), haddr 4 (by decide), haddr 5 (by decide), haddr 6 (by decide),
    haddr 8 (by decide), haddr 12 (by decide)]
  rw [BitVec.extractLsb'_append_eq_left]
  have hselector : ((s.reg .rsi).extractLsb' 16 48 ++ kernelCode).setWidth (8 * 2) = kernelCode :=
    BitVec.setWidth_append_eq_right
  have hist : ((s.reg .rsi).extractLsb' 16 48 ++ (0 : BitVec 16)).setWidth (8 * 1) =
      (0 : BitVec 8) := by
    apply BitVec.eq_of_getLsbD_eq
    intro i hi
    rw [BitVec.getLsbD_setWidth, BitVec.getLsbD_append, if_pos (by omega)]
    simp
  have htype : (withType (s.reg .rsi) 0x8e).setWidth (8 * 1) = (0x8e : BitVec 8) :=
    BitVec.setWidth_append_eq_right
  have hmid : (withType (s.reg .rsi) 0x8e >>> 16).setWidth (8 * 2) =
    (s.reg .rsi).extractLsb' 16 16 := withType_mid ..
  have hhigh : (withType (s.reg .rsi) 0x8e >>> 16 >>> 16).setWidth (8 * 4) =
    (s.reg .rsi).extractLsb' 32 32 := withType_high ..
  rw [hselector, hist, htype, hmid, hhigh]
  rfl

/-- The registers that a function has to keep, `create_gate` does not use. -/
theorem reg_createGateOps (s : State) {r : Reg} (hr : r ≠ .rax ∧ r ≠ .rdi) :
    (applyAll createGateOps s).reg r = s.reg r := by
  unfold createGateOps
  simp only [applyAll_cons, applyAll_nil, Op.apply, State.set, ne_eq, hr.1, hr.2, not_false_eq_true,
    Function.update_of_ne]

/-- `create_gate` returns to where it was called from. The processor finds the function in the entry
with this number, and nothing else is changed. -/
theorem create_gate_spec {W : Type} (k : Image W) {s : State} {n : Nat} (w : W) (hn : n < 256)
    (hrip : s.rip = k.sys.addr .createGate 0) (hrdi : s.reg .rdi = BitVec.ofNat 64 n)
    (hstack : 16 * n + 16 ≤ s.top) :
    Leads k.sys.Step
      (fun u => u.2 = w ∧ idtEntry u.1.mem n = ⟨s.reg .rsi, kernelCode, 0, 0x8e⟩ ∧
        s.mem.SameBut (16 * n) (16 * n + 16) u.1.mem ∧
        (∀ v ≠ n, idtEntry u.1.mem v = idtEntry s.mem v) ∧ u.1.rip = s.peek ∧
        u.1.reg .rsp = s.reg .rsp + 8 ∧ ∀ r ∈ calleeSaved, u.1.reg r = s.reg r) (s, w) := by
  have hcode := congrFun k.code .createGate
  refine System.leads_ops [] createGateOps hcode rfl hrip ?_
  generalize ht : (applyAll createGateOps s).goto (k.sys.addr .createGate _) = t
  have hmem : t.mem = createGate n (s.reg .rsi) s.mem := by
    rw [← ht, State.goto_mem, mem_createGateOps s hn hrdi]
  have hreg : ∀ r, r ≠ Reg.rax ∧ r ≠ Reg.rdi → t.reg r = s.reg r := by
    intro r hr
    rw [← ht, State.goto_reg, reg_createGateOps s hr]
  have hsame : s.mem.SameBut (16 * n) (16 * n + 16) t.mem := by
    rw [hmem]
    exact Gate.write_sameBut (gateOf (s.reg .rsi)) (16 * n) s.mem
  have hentry : idtEntry t.mem n = gateOf (s.reg .rsi) := by
    rw [hmem, idtEntry_createGate, if_pos rfl]
  have hpeek : t.peek = s.peek := by
    have htop : t.top = s.top := congrArg BitVec.toNat (hreg .rsp (by decide))
    unfold State.peek
    rw [htop]
    exact hsame.read (.inr hstack)
  have hrip' : t.rip = k.sys.addr .createGate 15 := by
    rw [← ht, State.goto_rip]
    rfl
  refine System.leads_instr hrip' (congrArg (·[15]?) hcode) rfl (.here ⟨rfl, ?_⟩)
  refine ⟨hentry, hsame, ?_, hpeek, ?_, ?_⟩
  · intro v hv
    change idtEntry t.mem v = _
    rw [hmem, idtEntry_createGate, if_neg hv]
  · rw [← hreg .rsp (by decide)]
    exact State.drop_rsp t
  · intro r hr
    have hne : ∀ r ∈ calleeSaved, r ≠ Reg.rsp ∧ r ≠ Reg.rax ∧ r ≠ Reg.rdi := by decide
    rw [← hreg r (hne r hr).2]
    exact State.set_of_ne (hne r hr).1 (t.reg .rsp + 8) t

/-- The stub of the page fault, at some address. -/
theorem create_gate_spec_run :
    let k : Image Unit := Image.placed (fun _ _ w => w) (fun _ => none) 0
    let reg : Reg → BitVec 64 := fun r =>
      if r = .rdi then 14 else if r = .rsi then 0x123456789abc else 0x18000
    let s : State :=
      ⟨reg, fun _ => kernelData, placedAt .createGate 0, 2, ⟨fun _ => 0, (0, 0), 0⟩, fun _ => 0⟩
    Leads k.sys.Step (fun u => idtEntry u.1.mem 14 = ⟨0x123456789abc, kernelCode, 0, 0x8e⟩ ∧
      u.1.reg .rsp = 0x18008) (s, ()) := by
  intro k reg s
  refine (create_gate_spec k (s := s) (n := 14) () (by decide) rfl rfl (by decide)).mono ?_
  rintro u ⟨_, hentry, _, _, _, hrsp, _⟩
  exact ⟨hentry, hrsp⟩

/-! ## `init_interrupts` -/

/-- The stub of an exception. -/
def isrLabel (n : Fin 20) : Label := .isr (n.castLE (by decide))

/-- The calls of `create_gate`, in order. -/
def gates (addr : Label → Nat → BitVec 64) : List (Nat × BitVec 64) :=
  (List.finRange 16).map (fun n => (32 + n.val, addr (.irq n) 0)) ++
    (List.finRange 20).map fun n => (n.val, addr (isrLabel n) 0)

def createGates (gs : List (Nat × BitVec 64)) (m : ByteMem) : ByteMem :=
  gs.foldl (fun m g => createGate g.1 g.2 m) m

section

variable {U W : Type}

/-- `init_interrupts`: the memory, and the masks of the interrupt controllers. Interrupts are off
meanwhile. -/
def initInterrupts (k : Image W) (m : ByteMem) (w : W) : ByteMem × W :=
  let w := k.sys.devices 0x21 0 w
  let w := k.sys.devices 0xa1 0 w
  (createGates (gates k.sys.addr) m, w)

/-- All the entries that `init_interrupts` makes are there. -/
structure IdtReady (k : Image W) (m : ByteMem) : Prop where
  irq : ∀ n : Fin 16, idtEntry m (32 + n) = gateOf (k.sys.addr (.irq n) 0)
  isr : ∀ n : Fin 20, idtEntry m n = gateOf (k.sys.addr (isrLabel n) 0)

theorem idtEntry_createGates_of_not_mem {v : Nat} (gs : List (Nat × BitVec 64)) (m : ByteMem)
    (h : v ∉ gs.map Prod.fst) : idtEntry (createGates gs m) v = idtEntry m v := by
  induction gs generalizing m with
  | nil => rfl
  | cons g gs ih =>
      obtain ⟨hne, hrest⟩ := not_or.mp (mt List.mem_cons.mpr h)
      refine (ih (createGate g.1 g.2 m) hrest).trans ?_
      rw [idtEntry_createGate, if_neg hne]

/-- No entry is made twice. -/
theorem idtEntry_createGates {g : Nat × BitVec 64} (gs : List (Nat × BitVec 64)) (m : ByteMem)
    (nodup : (gs.map Prod.fst).Nodup) (hg : g ∈ gs) :
    idtEntry (createGates gs m) g.1 = gateOf g.2 := by
  induction gs generalizing m with
  | nil => cases hg
  | cons g' gs ih =>
      obtain ⟨hnew, hrest⟩ := List.nodup_cons.mp nodup
      obtain rfl | hin := List.mem_cons.mp hg
      · refine (idtEntry_createGates_of_not_mem gs _ hnew).trans ?_
        rw [idtEntry_createGate, if_pos rfl]
      · exact ih (createGate g'.1 g'.2 m) hrest hin

theorem createGates_sameBut {n : Nat} (gs : List (Nat × BitVec 64)) (m : ByteMem)
    (h : ∀ g ∈ gs, g.1 < n) : m.SameBut 0 (16 * n) (createGates gs m) := by
  induction gs generalizing m with
  | nil => exact ByteMem.SameBut.refl m 0 (16 * n)
  | cons g gs ih =>
      have hlt := h g List.mem_cons_self
      have hfirst := Gate.write_sameBut (gateOf g.2) (16 * g.1) m
      exact (hfirst.mono (Nat.zero_le _) (by omega)).trans
        (ih _ fun g' hg' => h g' (List.mem_cons_of_mem _ hg'))

theorem map_fst_gates (addr : Label → Nat → BitVec 64) :
    (gates addr).map Prod.fst = List.range' 32 16 ++ List.range' 0 20 := by
  rw [gates, List.map_append, List.map_map, List.map_map]
  change (List.finRange 16).map (fun n => 32 + n.val) ++ (List.finRange 20).map (fun n => n.val) = _
  decide

/-- Before each of the calls and behind it the rest of the memory is the same. -/
theorem initInterrupts_spec (k : Image W) (m : ByteMem) (w : W) :
    IdtReady k (initInterrupts k m w).1 ∧
      (∀ v, 20 ≤ v → v < 32 ∨ 48 ≤ v → idtEntry (initInterrupts k m w).1 v = idtEntry m v) ∧
      m.SameBut 0 768 (initInterrupts k m w).1 := by
  have hfst := map_fst_gates k.sys.addr
  have hnodup : ((gates k.sys.addr).map Prod.fst).Nodup := by
    rw [hfst]
    decide
  have hmem : ∀ v, v ∈ (gates k.sys.addr).map Prod.fst ↔ v < 20 ∨ 32 ≤ v ∧ v < 48 := by
    intro v
    rw [hfst, List.mem_append, List.mem_range'_1, List.mem_range'_1]
    omega
  refine ⟨⟨fun n => ?_, fun n => ?_⟩, fun v hlo hhi => ?_, ?_⟩
  · refine idtEntry_createGates (g := (32 + n.val, _)) _ m hnodup ?_
    exact List.mem_append_left _ (List.mem_map_of_mem (List.mem_finRange n))
  · refine idtEntry_createGates (g := (n.val, _)) _ m hnodup ?_
    exact List.mem_append_right _ (List.mem_map_of_mem (List.mem_finRange n))
  · apply idtEntry_createGates_of_not_mem
    rw [hmem]
    omega
  · refine (createGates_sameBut (n := 48) _ m fun g hg => ?_).mono (Nat.le_refl 0) (by decide)
    have hv := (hmem g.1).mp (List.mem_map_of_mem hg)
    omega

theorem IdtReady.of_eq {k : Image W} {m m₀ : ByteMem} {w₀ : W}
    (h : ∀ x < 768, m x = (initInterrupts k m₀ w₀).1 x) : IdtReady k m := by
  have hready := (initInterrupts_spec k m₀ w₀).1
  have hentry : ∀ v < 48, idtEntry m v = idtEntry (initInterrupts k m₀ w₀).1 v := by
    intro v hv
    apply Gate.read_congr
    intro x _ hx
    exact h x (by omega)
  constructor
  · intro n
    rw [hentry _ (by omega)]
    exact hready.irq n
  · intro n
    rw [hentry _ (by omega)]
    exact hready.isr n

variable {k : Image W} {handlers : BitVec 8 → Handler U W} {s : State} {m₀ : ByteMem} {w w' : W}

/-- With the table of `init_interrupts`, a hardware interrupt at any time is acknowledged and
handled, and then the program that it interrupted goes on with all its registers. -/
theorem irq_transparent (w₀ : W) (rsp0 : BitVec 64) (n : Fin 16) (hk : k.Dispatches handlers)
    (hidt : ∀ x < 768, s.mem x = (initInterrupts k m₀ w₀).1 x)
    (room : 984 + k.sys.depth ≤ (s.interruptStack rsp0).toNat)
    (hw : irqHandler handlers (BitVec.ofNat 8 (32 + n)) (savedRegisters s 0)
      (endOfInterrupt k.sys.devices n w) = some w') :
    Leads k.sys.Step
      (fun u => u.2 = w' ∧ Resumes ((s.interruptStack rsp0).toNat - (216 + k.sys.depth))
        (s.interruptStack rsp0).toNat s u.1)
      (s.interrupt (idtEntry s.mem (32 + n)) rsp0 none, w) := by
  have hgate := (IdtReady.of_eq hidt).irq n
  exact irq_spec hk n (congrArg Gate.offset hgate) (by omega) hw

/-- The same for the exceptions that the kernel has a stub for. Whether or not the processor pushes
an error code, the handler finds the same structure. -/
theorem exception_transparent (w₀ : W) (rsp0 e : BitVec 64) (n : Fin 20)
    (hk : k.Dispatches handlers)
    (hidt : ∀ x < 768, s.mem x = (initInterrupts k m₀ w₀).1 x)
    (room : 984 + k.sys.depth ≤ (s.interruptStack rsp0).toNat)
    (hw : isrHandler handlers (BitVec.ofNat 8 n)
      (savedRegisters s (if n.val ∈ errorVectors then e else 0)) w = some w') :
    Leads k.sys.Step
      (fun u => u.2 = w' ∧ Resumes ((s.interruptStack rsp0).toNat - (216 + k.sys.depth))
        (s.interruptStack rsp0).toNat s u.1)
      (s.interrupt (idtEntry s.mem n) rsp0 (if n.val ∈ errorVectors then some e else none), w) := by
  have hgate := (IdtReady.of_eq hidt).isr n
  have hvectors : n.val ∈ errorVectors ↔ n.val ∈ isrErr :=
    (by decide : ∀ n : Fin 20, n.val ∈ errorVectors ↔ n.val ∈ isrErr) n
  refine isr_spec hk (n.castLE (by decide)) _ ?_ (congrArg Gate.offset hgate) (by omega) ?_
  · by_cases h : n.val ∈ errorVectors
    · rw [if_pos h, Option.isSome_some]
      exact (decide_eq_true (hvectors.mp h)).symm
    · rw [if_neg h, Option.isSome_none]
      exact (decide_eq_false (mt hvectors.mpr h)).symm
  · by_cases h : n.val ∈ errorVectors
    · rw [if_pos h] at hw ⊢
      exact hw
    · rw [if_neg h] at hw ⊢
      exact hw

end

/-- Handlers that count, for all interrupts. -/
def countingHandlers (_ : BitVec 8) : Handler Unit Nat := ⟨some fun _ _ w => some (w + 1), ()⟩

def countingImage : Image Nat :=
  Image.placed (fun _ _ w => w) (fun a =>
    if a = placedSymbols.isrHandler then some (handlerCall (isrHandler countingHandlers))
    else if a = placedSymbols.irqHandler then some (handlerCall (irqHandler countingHandlers))
    else none) 0x1000

theorem countingImage_dispatches : countingImage.Dispatches countingHandlers := ⟨rfl, rfl⟩

/-- In the kernel at address 2 MB, with the stack of the boot code. -/
def countingState : State where
  reg := fun r => if r = .rsp then 0x18000 else 7
  seg := fun x => if x = .cs then kernelCode else kernelData
  rip := 0x200000
  flags := 0x202
  ctl := ⟨fun _ => 0, (0, 0), 0⟩
  mem := (initInterrupts countingImage (fun _ => 0) 0).1

theorem countingState_stack : countingState.interruptStack 0 = 0x18000 := by decide

theorem irq_transparent_run : Leads countingImage.sys.Step
    (fun u => u.2 = 1 ∧ Resumes 0x16f28 0x18000 countingState u.1)
    (countingState.interrupt (idtEntry countingState.mem (32 + (1 : Fin 16).val)) 0 none, 0) := by
  have hrun := irq_transparent (k := countingImage) (s := countingState) (w := 0) 0 0 1
    countingImage_dispatches (fun _ _ => rfl) (by rw [countingState_stack]; decide) rfl
  rw [countingState_stack] at hrun
  exact hrun

theorem exception_transparent_run : Leads countingImage.sys.Step
    (fun u => u.2 = 1 ∧ Resumes 0x16f28 0x18000 countingState u.1)
    (countingState.interrupt (idtEntry countingState.mem (14 : Fin 20).val) 0 (some 6), 0) := by
  have hrun := exception_transparent (k := countingImage) (s := countingState) (w := 0) 0 0 6 14
    countingImage_dispatches (fun _ _ => rfl) (by rw [countingState_stack]; decide) rfl
  rw [countingState_stack] at hrun
  exact hrun

end BadOs
