import BadOs.Data.OnesComplement
import BadOs.Ne2k.Receive

/-!
# Copying a packet out of the NE2000

The body of the receive loop, up to the buffer that is enqueued, against a data port that
yields the header and then the bytes of the packet. The loop counter has 16 bits here.
-/

namespace BadOs

/-! ## The body of the receive loop -/

/-- The `for` loop. It would not end for a size above 0xfffd, when `s` wraps around. -/
def copyWords (size : BitVec 16) :
    (fuel : Nat) → (s : BitVec 16) → ByteMem → PortProg Nat ByteMem
  | 0, _, _ => .stuck
  | fuel + 1, s, buffer =>
      if s < size then do
        let d ← inw 0x10
        let buffer := Function.update buffer (s.toNat + 1) ((d >>> 8).setWidth 8)
        let buffer := Function.update buffer s.toNat (d.setWidth 8)
        copyWords size fuel (s + 2) buffer
      else pure buffer

/-- What one round of the `while` loop reads: the next page, the size and the buffer, which
`kmem_alloc` returned with the contents `heap`. -/
def copyPacket (heap : ByteMem) (frame : BitVec 8) :
    PortProg Nat (BitVec 8 × BitVec 16 × ByteMem) := do
  outb 0x0 0x22
  outb 0xa 4
  outb 0xb 0
  outb 0x8 0
  outb 0x9 frame
  outb 0x0 0x0a
  let val ← inl 0x10
  let next := val.extractLsb' 8 8
  let count := val.extractLsb' 16 16
  let size := count - 4
  outb 0x0 0x22
  outb 0x8 4
  outb 0xa (size.setWidth 8)
  outb 0xb ((count >>> 8).setWidth 8)
  let buffer ← copyWords size 0x8001 0 heap
  let buffer ← readRest size buffer
  return (next, size, buffer)

/-! ## The data port -/

/-- The header that the port yields, the bytes behind it, how many of them were read, and
the registers of the remote byte count. -/
structure DataPort where
  header : BitVec 32
  packet : ByteMem
  pos : Nat
  countLo : BitVec 8
  countHi : BitVec 8

namespace DataPort

def outb (off : Nat) (v : BitVec 8) (p : DataPort) : DataPort :=
  match off with
  | 0xa => { p with countLo := v }
  | 0xb => { p with countHi := v }
  | _ => p

/-- Two bytes a word, the low one first, and one a byte. -/
def respond : (a : PortAccess Nat) → DataPort → a.Answer × DataPort
  | .inb _, p => (p.packet p.pos, { p with pos := p.pos + 1 })
  | .inw _, p => (p.packet (p.pos + 1) ++ p.packet p.pos, { p with pos := p.pos + 2 })
  | .inl _, p => (p.header, p)
  | .outb off v, p => ((), p.outb off v)

/-- `header.count`. -/
def count (p : DataPort) : BitVec 16 := p.header.extractLsb' 16 16

def size (p : DataPort) : BitVec 16 := p.count - 4

end DataPort

/-- The copy ends, writes only to the `size` bytes of the buffer, which are then those of the
packet, and programs `size` as the remote byte count. -/
def CopiesPacket (p : DataPort) (heap : ByteMem) (frame : BitVec 8) : Prop :=
  ∃ next size buffer p', (copyPacket heap frame).run DataPort.respond p =
      some ((next, size, buffer), p') ∧ size = p.size ∧
    (∀ i, size.toNat ≤ i → buffer i = heap i) ∧
    (∀ i < size.toNat, buffer i = p.packet i) ∧
    p'.countHi ++ p'.countLo = size

/-! ## The loop -/

theorem copyWords_eq {size : BitVec 16} (hsize : size.toNat ≤ 0xfffb) {fuel : Nat} {s : BitVec 16}
    (hs : s.toNat ≤ size.toNat + 1) (enough : size.toNat + 1 < s.toNat + 2 * fuel)
    (buffer : ByteMem) :
    copyWords size fuel s buffer = readWords ((size.toNat + 1 - s.toNat) / 2) s.toNat buffer := by
  induction fuel generalizing s buffer with
  | zero => omega
  | succ fuel ih =>
      rw [copyWords]
      split
      · next hlt =>
        have hlt' : s.toNat < size.toNat := hlt
        have hnext : (s + 2).toNat = s.toNat + 2 := by
          rw [BitVec.toNat_add, show (2 : BitVec 16).toNat = 2 from rfl]
          omega
        obtain ⟨left, hleft⟩ : ∃ left, (size.toNat + 1 - s.toNat) / 2 = left + 1 :=
          ⟨(size.toNat + 1 - s.toNat) / 2 - 1, by omega⟩
        have hrest : (size.toNat + 1 - (s.toNat + 2)) / 2 = left := by omega
        rw [hleft, readWords]
        refine congrArg _ (funext fun d => ?_)
        rw [ih (by omega) (by omega), hnext, hrest]
      · next hge =>
        have hge' : size.toNat ≤ s.toNat := Nat.le_of_not_lt hge
        have hzero : (size.toNat + 1 - s.toNat) / 2 = 0 := by omega
        rw [hzero]
        rfl

theorem copyWords_start {size : BitVec 16} (hsize : size.toNat ≤ 0xfffb) (buffer : ByteMem) :
    copyWords size 0x8001 0 buffer = readWords ((size.toNat + 1) / 2) 0 buffer := by
  have hzero : (0 : BitVec 16).toNat = 0 := rfl
  exact copyWords_eq hsize (by omega) (by omega) buffer

theorem setWidth_append_high (hi lo : BitVec 8) : ((hi ++ lo) >>> 8).setWidth 8 = hi := by
  rw [BitVec.setWidth_ushiftRight_eq_extractLsb]
  exact BitVec.extractLsb'_append_eq_left

/-- The two stores of a word, and the words behind it. -/
theorem copy_update_word (buffer packet : ByteMem) (s n : Nat) :
    ByteMem.copy (Function.update (Function.update buffer (s + 1) (packet (s + 1))) s (packet s))
      (s + 2) packet (s + 2) n = buffer.copy s packet s (n + 2) := by
  funext x
  unfold ByteMem.copy
  by_cases hlow : x < s + 2
  · rw [if_neg (by omega)]
    by_cases hs : x = s
    · subst hs
      rw [Function.update_self, if_pos (by omega), Nat.sub_self, Nat.add_zero]
    · rw [Function.update_of_ne hs]
      by_cases hs' : x = s + 1
      · subst hs'
        rw [Function.update_self, if_pos (by omega), Nat.add_sub_cancel_left]
      · rw [Function.update_of_ne hs', if_neg (by omega)]
  · have hoff : s + 2 + (x - (s + 2)) = s + (x - s) := by omega
    have hiff : s + 2 ≤ x ∧ x < s + 2 + n ↔ s ≤ x ∧ x < s + (n + 2) := by omega
    rw [hoff, if_congr hiff rfl rfl, Function.update_of_ne (by omega),
      Function.update_of_ne (by omega)]

/-- The words of the packet go to the buffer from `s` on. -/
theorem readWords_run (left s : Nat) (buffer : ByteMem) (p : DataPort) (hpos : p.pos = s) :
    (readWords left s buffer).run DataPort.respond p =
      some (buffer.copy s p.packet s (2 * left), { p with pos := s + 2 * left }) := by
  induction left generalizing s buffer p with
  | zero =>
      subst hpos
      rw [Nat.mul_zero, ByteMem.copy_zero]
      rfl
  | succ left ih =>
      subst hpos
      refine (ih (p.pos + 2) _ { p with pos := p.pos + 2 } rfl).trans ?_
      have hlen : p.pos + 2 + 2 * left = p.pos + 2 * (left + 1) := by omega
      rw [hlen]
      dsimp only [DataPort.respond]
      rw [setWidth_append_high, BitVec.setWidth_append_eq_right, copy_update_word]
      rfl

/-- The bytes of the buffer behind the loop and the read of a last odd byte. -/
def copied (size : Nat) (packet heap : ByteMem) : ByteMem :=
  if size % 2 = 1 then
    Function.update (heap.copy 0 packet 0 (size + 1)) (size - 1) (packet (size + 1))
  else heap.copy 0 packet 0 size

theorem and_one_ne_zero_iff (size : BitVec 16) : size &&& 1 ≠ 0 ↔ size.toNat % 2 = 1 := by
  rw [ne_eq, ← BitVec.toNat_inj, BitVec.toNat_and, show (1 : BitVec 16).toNat = 1 from rfl,
    Nat.and_one_is_mod]
  have hzero : (0 : BitVec 16).toNat = 0 := rfl
  omega

/-- The last byte of a packet of odd size is read behind the words, which had it already. -/
theorem readRest_run (size : BitVec 16) (buffer : ByteMem) (p : DataPort) :
    (readRest size buffer).run DataPort.respond p =
      if size.toNat % 2 = 1 then some (Function.update buffer (size.toNat - 1) (p.packet p.pos),
        { p with pos := p.pos + 1 })
      else some (buffer, p) := by
  unfold readRest
  by_cases hodd : size &&& 1 ≠ 0
  · have hmod := (and_one_ne_zero_iff size).mp hodd
    have hlast : (size - 1).toNat = size.toNat - 1 := by
      rw [BitVec.toNat_sub, show (1 : BitVec 16).toNat = 1 from rfl]
      omega
    rw [if_pos hodd, if_pos hmod, hlast]
    rfl
  · rw [if_neg hodd, if_neg (mt (and_one_ne_zero_iff size).mpr hodd)]
    rfl

/-- What the body does, for every header with a count of at least four. -/
theorem copyPacket_run (heap : ByteMem) (frame : BitVec 8) {p : DataPort} (hpos : p.pos = 0)
    (hcount : 4 ≤ p.count.toNat) : ∃ p', (copyPacket heap frame).run DataPort.respond p =
      some ((p.header.extractLsb' 8 8, p.size, copied p.size.toNat p.packet heap), p') ∧
      p'.countLo = p.size.setWidth 8 ∧ p'.countHi = (p.count >>> 8).setWidth 8 := by
  have hsize : p.size.toNat = p.count.toNat - 4 := by
    rw [DataPort.size, BitVec.toNat_sub, show (4 : BitVec 16).toNat = 4 from rfl]
    omega
  have hlt := p.count.isLt
  have hwords := copyWords_start (show p.size.toNat ≤ 0xfffb by omega) heap
  let q : DataPort :=
    { p with countLo := p.size.setWidth 8, countHi := (p.count >>> 8).setWidth 8 }
  have hcopy : (copyWords p.size 0x8001 0 heap).run DataPort.respond q =
      some (heap.copy 0 p.packet 0 (2 * ((p.size.toNat + 1) / 2)),
        { q with pos := 2 * ((p.size.toNat + 1) / 2) }) := by
    rw [hwords]
    exact (readWords_run _ 0 heap q hpos).trans (by rw [Nat.zero_add])
  have hrest := readRest_run p.size (heap.copy 0 p.packet 0 (2 * ((p.size.toNat + 1) / 2)))
    { q with pos := 2 * ((p.size.toNat + 1) / 2) }
  have hpacket : ∀ {buffer q'}, (readRest p.size (heap.copy 0 p.packet 0
      (2 * ((p.size.toNat + 1) / 2)))).run DataPort.respond
        { q with pos := 2 * ((p.size.toNat + 1) / 2) } = some (buffer, q') →
      (copyPacket heap frame).run DataPort.respond p =
        some ((p.header.extractLsb' 8 8, p.size, buffer), q') := by
    intro buffer q' hrun
    exact (Prog.run_bind_of_eq hcopy).trans (Prog.run_bind_of_eq hrun)
  unfold copied
  by_cases hodd : p.size.toNat % 2 = 1
  · have hlen : 2 * ((p.size.toNat + 1) / 2) = p.size.toNat + 1 := by omega
    rw [if_pos hodd, hlen] at hrest
    rw [hlen] at hpacket
    rw [if_pos hodd]
    exact ⟨_, hpacket hrest, rfl, rfl⟩
  · have hlen : 2 * ((p.size.toNat + 1) / 2) = p.size.toNat := by omega
    rw [if_neg hodd, hlen] at hrest
    rw [hlen] at hpacket
    rw [if_neg hodd]
    exact ⟨_, hpacket hrest, rfl, rfl⟩

/-- A round of the `while` loop, whose words are counted beforehand there, is the body. -/
theorem drain_run {p : DataPort} (hcount : 4 ≤ p.count.toNat) {rxpage frame : BitVec 8}
    (hne : rxpage ≠ frame) (fuel : Nat) :
    (drain rxpage (fuel + 1) frame).run DataPort.respond p =
      (do
        let (next, size, buffer) ← copyPacket (fun _ => 0) frame
        outb 0x3 (next - 1)
        let frames ← drain rxpage fuel next
        return (size, buffer) :: frames : PortProg Nat _).run DataPort.respond p := by
  have hsize : p.size.toNat = p.count.toNat - 4 := by
    rw [DataPort.size, BitVec.toNat_sub, show (4 : BitVec 16).toNat = 4 from rfl]
    omega
  have hlt := p.count.isLt
  have hwords := copyWords_start (show p.size.toNat ≤ 0xfffb by omega) fun _ => 0
  rw [drain, if_pos hne, copyPacket]
  have hbody (next : BitVec 8) :
      ((readWords ((p.size.toNat + 1) / 2) 0 fun _ => 0) >>= fun buffer => do
        let buffer ← readRest p.size buffer
        outb 0x3 (next - 1)
        let frames ← drain rxpage fuel next
        return (p.size, buffer) :: frames : PortProg Nat _) =
      ((copyWords p.size 0x8001 0 fun _ => 0) >>= fun buffer => do
        let buffer ← readRest p.size buffer
        return (next, p.size, buffer)) >>= fun r => do
          outb 0x3 (r.1 - 1)
          let frames ← drain rxpage fuel r.1
          return (r.2.1, r.2.2) :: frames := by
    rw [hwords, Prog.bind_assoc]
    refine congrArg _ (funext fun buffer => ?_)
    rw [Prog.bind_assoc]
    rfl
  exact congrArg (fun prog : PortProg Nat _ => prog.run DataPort.respond
    { p with countLo := p.size.setWidth 8, countHi := (p.count >>> 8).setWidth 8 })
    (hbody (p.header.extractLsb' 8 8))

/-! ## When the copy is exact -/

/-- The high byte of the count is that of the size unless the subtraction borrows. -/
theorem remoteCount_iff {count size : BitVec 16} (hsize : size.toNat = count.toNat - 4)
    (hcount : 4 ≤ count.toNat) :
    (count >>> 8).setWidth 8 ++ size.setWidth 8 = size ↔ 4 ≤ count.toNat % 256 := by
  have hlt := count.isLt
  rw [← BitVec.toNat_inj, OnesComplement.toNat_append, BitVec.toNat_setWidth, BitVec.toNat_setWidth,
    BitVec.toNat_ushiftRight, Nat.shiftRight_eq_div_pow]
  omega

/-- For an odd size the byte behind the packet is written, and the last byte of the packet is
replaced by a later one. -/
theorem copied_exact_iff (size : Nat) :
    (∀ packet heap : ByteMem, (∀ i, size ≤ i → copied size packet heap i = heap i) ∧
      ∀ i < size, copied size packet heap i = packet i) ↔ size % 2 = 0 := by
  constructor
  · intro exact
    by_contra hodd
    have hout := (exact (fun _ => 1) fun _ => 0).1 size (Nat.le_refl size)
    rw [copied, if_pos (by omega), Function.update_of_ne (by omega), ByteMem.copy,
      if_pos ⟨Nat.zero_le size, by omega⟩] at hout
    exact absurd hout (show ¬(1 : BitVec 8) = 0 by decide)
  · intro heven packet heap
    rw [copied, if_neg (by omega)]
    constructor
    · intro i hi
      rw [ByteMem.copy, if_neg (by omega)]
    · intro i hi
      rw [ByteMem.copy, if_pos ⟨Nat.zero_le i, by omega⟩, Nat.sub_zero, Nat.zero_add]

/-- The packet is copied as it is meant to be when its size is even and the subtraction of the
header does not borrow from the high byte of the count. -/
theorem copy_packet_iff (header : BitVec 32) (hcount : 4 ≤ (header.extractLsb' 16 16).toNat) :
    (∀ p : DataPort, p.header = header → p.pos = 0 → ∀ heap frame, CopiesPacket p heap frame) ↔
      (header.extractLsb' 16 16).toNat % 2 = 0 ∧ 4 ≤ (header.extractLsb' 16 16).toNat % 256 := by
  have hlt := (header.extractLsb' 16 16).isLt
  have hsize : (header.extractLsb' 16 16 - 4).toNat = (header.extractLsb' 16 16).toNat - 4 := by
    rw [BitVec.toNat_sub, show (4 : BitVec 16).toNat = 4 from rfl]
    omega
  have heven : (header.extractLsb' 16 16).toNat % 2 = 0 ↔
      (header.extractLsb' 16 16 - 4).toNat % 2 = 0 := by omega
  rw [heven, ← remoteCount_iff hsize hcount, ← copied_exact_iff]
  constructor
  · intro copies
    constructor
    · intro packet heap
      obtain ⟨_, _, _, _, hrun, rfl, hout, hin, _⟩ :=
        copies ⟨header, packet, 0, 0, 0⟩ rfl rfl heap 0
      obtain ⟨_, hrun', _⟩ := copyPacket_run heap 0 (p := ⟨header, packet, 0, 0, 0⟩) rfl hcount
      cases hrun.symm.trans hrun'
      exact ⟨hout, hin⟩
    · obtain ⟨_, _, _, p₁, hrun, rfl, _, _, hremote⟩ :=
        copies ⟨header, fun _ => 0, 0, 0, 0⟩ rfl rfl (fun _ => 0) 0
      obtain ⟨p', hrun', hlo, hhi⟩ := copyPacket_run (fun _ => 0) 0
        (p := ⟨header, fun _ => 0, 0, 0, 0⟩) rfl hcount
      cases hrun.symm.trans hrun'
      rw [hlo, hhi] at hremote
      exact hremote
  · rintro ⟨exact, hremote⟩ p rfl hpos heap frame
    obtain ⟨p', hrun, hlo, hhi⟩ := copyPacket_run heap frame hpos hcount
    obtain ⟨hout, hin⟩ := exact p.packet heap
    exact ⟨_, _, _, p', hrun, rfl, hout, hin, by rw [hlo, hhi]; exact hremote⟩

/-- A header with next page 0x4d and a count of 68. -/
theorem copy_packet_even :
    CopiesPacket ⟨0x00444d01, fun i => BitVec.ofNat 8 i, 0, 0, 0⟩ (fun _ => 0) 0x4c :=
  (copy_packet_iff 0x00444d01 (by decide)).mpr (by decide) _ rfl rfl (fun _ => 0) 0x4c

/-- Of a packet of one byte the second byte behind it is delivered. -/
theorem copy_packet_odd : ¬∀ (p : DataPort) (heap : ByteMem) (frame : BitVec 8), p.pos = 0 →
    4 ≤ p.count.toNat → CopiesPacket p heap frame := by
  intro claim
  obtain ⟨_, _, _, _, hrun, rfl, _, hin, _⟩ :=
    claim ⟨0x00054d01, fun i => BitVec.ofNat 8 i, 0, 0, 0⟩ (fun _ => 0) 0x4c rfl (by decide)
  obtain ⟨_, hrun', _⟩ := copyPacket_run (fun _ => 0) 0x4c
    (p := ⟨0x00054d01, fun i => BitVec.ofNat 8 i, 0, 0, 0⟩) rfl (by decide)
  cases hrun.symm.trans hrun'
  exact absurd (hin 0 (by decide)) (by decide)

end BadOs
