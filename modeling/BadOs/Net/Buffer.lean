import BadOs.Common

/-!
# Byte order, checksum and packet buffers

An `sbuff` is an area of `totalSize` bytes of which the last `currSize`, from
`head` on, belong to the layer at work. Building a packet starts at the innermost
header: `sbuff_push` makes room and `sbuff_pop` steps back over it. The area comes
from the heap with whatever was there before.
-/

namespace BadOs

/-! ## `net/ntox.h` and `checksum` -/

def ntos (x : BitVec 16) : BitVec 16 := x <<< 8 ||| x >>> 8

def ntol (x : BitVec 32) : BitVec 32 :=
  (ntos (x.setWidth 16)).setWidth 32 <<< 16 ||| (ntos ((x >>> 16).setWidth 16)).setWidth 32

@[simp] theorem ntos_ntos (x : BitVec 16) : ntos (ntos x) = x := by
  apply BitVec.eq_of_getLsbD_eq
  intro i hi
  simp only [ntos, BitVec.getLsbD_or, BitVec.getLsbD_shiftLeft, BitVec.getLsbD_ushiftRight]
  grind

@[simp] theorem ntol_ntol (x : BitVec 32) : ntol (ntol x) = x := by
  apply BitVec.eq_of_getLsbD_eq
  intro i hi
  simp only [ntol, ntos, BitVec.getLsbD_or, BitVec.getLsbD_shiftLeft, BitVec.getLsbD_ushiftRight,
    BitVec.getLsbD_setWidth]
  grind

/-- The loop over 16-bit words, with `left` words to go. The second byte of the last
word is read even when the length is odd. -/
def checksumLoop (m : ByteMem) : (left i : Nat) → (sum : BitVec 32) → BitVec 32
  | 0, _, sum => sum
  | left + 1, i, sum =>
      checksumLoop m left (i + 2) (sum + ((m i ++ m (i + 1) : BitVec 16)).setWidth 32)

/-- `while (sum >> 16)`. The second round leaves no carry. -/
def checksumFold : (fuel : Nat) → (sum : BitVec 32) → BitVec 32
  | 0, sum => sum
  | fuel + 1, sum =>
      if sum >>> 16 = 0 then sum else checksumFold fuel ((sum &&& 0xffff) + (sum >>> 16))

/-- The checksum of the `len` bytes from `buf` on, stored at `dest`. -/
def checksum (m : ByteMem) (buf len dest : Nat) : ByteMem :=
  let m := m.write dest 2 (0 : BitVec 16)
  let sum := checksumFold 3 (checksumLoop m ((len + 1) / 2) buf 0)
  m.write dest 2 (ntos ((~~~sum).setWidth 16))

section TwoMemories

variable {S : Set Nat} {m m' : ByteMem}

theorem checksumLoop_congr (left : Nat) {i : Nat} (h : ByteMem.AgreeOn i (2 * left) m m')
    (sum : BitVec 32) : checksumLoop m left i sum = checksumLoop m' left i sum := by
  induction left generalizing i sum with
  | zero => rfl
  | succ left ih =>
      rw [checksumLoop, checksumLoop, h i (Nat.le_refl i) (by omega),
        h (i + 1) (Nat.le_succ i) (by omega)]
      exact ih (fun x hlo hhi => h x (by omega) (by omega)) _

/-- The checksum of the same bytes is the same; its own field counts as zero. -/
theorem checksum_sameOn (h : ByteMem.SameOn S m m') (buf len dest : Nat)
    (hcover : ∀ x, buf ≤ x → x < buf + 2 * ((len + 1) / 2) → x ∈ S ∪ Set.Ico dest (dest + 2)) :
    ByteMem.SameOn (S ∪ Set.Ico dest (dest + 2)) (checksum m buf len dest)
      (checksum m' buf len dest) := by
  have hzero := h.write dest 2 (0 : BitVec 16)
  have hloop := checksumLoop_congr ((len + 1) / 2)
    (fun x hlo hhi => hzero (hcover x hlo hhi)) 0
  dsimp only [checksum]
  rw [hloop]
  exact (hzero.write dest 2 _).mono Set.subset_union_left

/-- The checksum of whatever is there changes nothing but its field. -/
theorem checksum_sameOn_diff (h : ByteMem.SameOn S m m') (buf len dest : Nat) :
    ByteMem.SameOn (S \ Set.Ico dest (dest + 2)) (checksum m buf len dest)
      (checksum m' buf len dest) := by
  rintro x ⟨hx, hout⟩
  have hout : x < dest ∨ dest + 2 ≤ x := by
    rw [Set.mem_Ico] at hout
    omega
  dsimp only [checksum]
  rw [ByteMem.write_apply_of_not_mem hout, ByteMem.write_apply_of_not_mem hout,
    ByteMem.write_apply_of_not_mem hout, ByteMem.write_apply_of_not_mem hout]
  exact h hx

end TwoMemories

/-! ## Devices and buffers -/

/-- Six bytes, the first one lowest. -/
abbrev Mac := BitVec 48

/-- `struct netdevice`, as far as the protocols read it. -/
structure NetDevice where
  ip : BitVec 32
  mac : Mac
  deriving DecidableEq

abbrev sizeofEthernetFrame : Nat := 14

abbrev sizeofArpPacket : Nat := 28

abbrev sizeofIpv4Header : Nat := 20

abbrev sizeofIcmpHeader : Nat := 8

abbrev sizeofUdpHeader : Nat := 8

abbrev sizeofTcpHdr : Nat := 20

abbrev sizeofTcpPseudoHdr : Nat := 12

/-- `sbuff`. The pointer `head` is an offset into `data`; `addr` tells heap objects
apart. -/
structure SBuff where
  addr : Nat
  totalSize : BitVec 16
  currSize : BitVec 16
  head : Nat
  refs : BitVec 8
  data : ByteMem
  head_eq : head + currSize.toNat = totalSize.toNat

def sbuffPush (s : SBuff) (size : BitVec 16) : Except Trap SBuff :=
  if h : s.currSize < size then .error (.panic "net: sbuff overflow")
  else .ok { s with
    currSize := s.currSize - size
    head := s.head + size.toNat
    head_eq := by
      have hle : size.toNat ≤ s.currSize.toNat := Nat.le_of_not_lt h
      have hhead := s.head_eq
      rw [BitVec.toNat_sub_of_le (BitVec.le_def.mpr hle)]
      omega }

def sbuffPop (s : SBuff) (size : BitVec 16) : Except Trap SBuff :=
  if h : s.totalSize.toNat < size.toNat + s.currSize.toNat then
    .error (.panic "net: sbuff underflow")
  else .ok { s with
    currSize := s.currSize + size
    head := s.head - size.toNat
    head_eq := by
      have hhead := s.head_eq
      have htotal := s.totalSize.isLt
      rw [BitVec.toNat_add_of_lt (by omega)]
      omega }

/-- Stores to `n` bytes of the buffer from offset `off` on. -/
def SBuff.store (s : SBuff) (off n : Nat) (f : ByteMem → ByteMem) : Except Trap SBuff :=
  if off + n ≤ s.totalSize.toNat then .ok { s with data := f s.data } else .error .outOfBounds

/-! ## When the checks succeed -/

theorem sbuffPush_eq {s : SBuff} {size : BitVec 16} (h : size.toNat ≤ s.currSize.toNat) :
    ∃ s', sbuffPush s size = .ok s' ∧ s'.addr = s.addr ∧ s'.totalSize = s.totalSize ∧
      s'.head = s.head + size.toNat ∧ s'.refs = s.refs ∧ s'.data = s.data := by
  unfold sbuffPush
  rw [dif_neg (by rw [BitVec.lt_def]; omega)]
  exact ⟨_, rfl, rfl, rfl, rfl, rfl, rfl⟩

theorem sbuffPush_panic {s : SBuff} {size : BitVec 16} (h : s.currSize.toNat < size.toNat) :
    sbuffPush s size = .error (.panic "net: sbuff overflow") := by
  unfold sbuffPush
  rw [dif_pos (BitVec.lt_def.mpr h)]

theorem sbuffPop_eq {s : SBuff} {size : BitVec 16} (h : size.toNat ≤ s.head) :
    ∃ s', sbuffPop s size = .ok s' ∧ s'.addr = s.addr ∧ s'.totalSize = s.totalSize ∧
      s'.head = s.head - size.toNat ∧ s'.refs = s.refs ∧ s'.data = s.data := by
  have hhead := s.head_eq
  unfold sbuffPop
  rw [dif_neg (by omega)]
  exact ⟨_, rfl, rfl, rfl, rfl, rfl, rfl⟩

theorem SBuff.store_eq {s : SBuff} {off n : Nat} (h : off + n ≤ s.totalSize.toNat)
    (f : ByteMem → ByteMem) : s.store off n f = .ok { s with data := f s.data } := by
  rw [SBuff.store, if_pos h]

end BadOs
