import BadOs.Net.Packet

/-!
# Reading headers

The fields that a header was written with are read back from it, and nothing around it
has changed.
-/

namespace BadOs

theorem checksum_read_of_disjoint {m : ByteMem} {buf len dest b k : Nat}
    (h : b + k ≤ dest ∨ dest + 2 ≤ b) : (checksum m buf len dest).read b k = m.read b k := by
  dsimp only [checksum]
  rw [ByteMem.read_write_of_disjoint h, ByteMem.read_write_of_disjoint h]

theorem checksum_apply_of_not_mem {m : ByteMem} {buf len dest x : Nat}
    (h : x < dest ∨ dest + 2 ≤ x) : checksum m buf len dest x = m x := by
  dsimp only [checksum]
  rw [ByteMem.write_apply_of_not_mem h, ByteMem.write_apply_of_not_mem h]

variable (len : BitVec 16) (proto : BitVec 8) (src dest : BitVec 32) (destMac source : Mac)
  (m : ByteMem)

theorem ethernetHeader_type (head : Nat) (type : BitVec 16) :
    (ethernetHeader head type destMac source m).read (head + 12) 2 = ntos type := by
  exact ByteMem.read_write_self _ _ _ _

theorem ethernetHeader_dest (head : Nat) (type : BitVec 16) :
    (ethernetHeader head type destMac source m).read head 6 = destMac := by
  dsimp only [ethernetHeader]
  rw [ByteMem.read_write_of_disjoint (by omega), ByteMem.read_write_of_disjoint (by omega)]
  exact ByteMem.read_write_self _ _ _ _

/-- The header does not reach the packet. -/
theorem ethernetHeader_apply {head x : Nat} (type : BitVec 16) (h : head + 14 ≤ x) :
    ethernetHeader head type destMac source m x = m x := by
  dsimp only [ethernetHeader]
  rw [ByteMem.write_apply_of_not_mem (by omega), ByteMem.write_apply_of_not_mem (by omega),
    ByteMem.write_apply_of_not_mem (by omega)]

theorem ethernetHeader_read {head b k : Nat} (type : BitVec 16) (h : head + 14 ≤ b) :
    (ethernetHeader head type destMac source m).read b k = m.read b k :=
  ByteMem.read_congr fun _ hlo _ => ethernetHeader_apply _ _ _ _ (h.trans hlo)

theorem ipv4Fields_apply {head x : Nat} (h : head + 20 ≤ x) :
    ipv4Fields head len proto src dest m x = m x := by
  dsimp only [ipv4Fields]
  rw [checksum_apply_of_not_mem (by omega)]
  simp (disch := omega) only [ByteMem.write_apply_of_not_mem]

/-- The protocol is at its place in the header. -/
theorem ipv4Fields_proto (head : Nat) :
    ipv4Fields head len proto src dest m (head + 9) = proto := by
  dsimp only [ipv4Fields]
  rw [checksum_apply_of_not_mem (by omega)]
  simp (disch := omega) only [ByteMem.write_apply_of_not_mem]
  exact ByteMem.write_byte _ _ _

theorem ipv4Fields_load (head : Nat) :
    Ipv4Header.load ((ipv4Fields head len proto src dest m).shift head) =
      ⟨5, ntos len, proto, ntol src⟩ := by
  have hihl : ipv4Fields head len proto src dest m head = 0x45 := by
    dsimp only [ipv4Fields]
    rw [checksum_apply_of_not_mem (by omega)]
    simp (disch := omega) only [ByteMem.write_apply_of_not_mem]
    exact ByteMem.write_byte _ _ _
  have hlen : (ipv4Fields head len proto src dest m).read (head + 2) 2 = ntos len := by
    dsimp only [ipv4Fields]
    rw [checksum_read_of_disjoint (by omega)]
    simp (disch := omega) only [ByteMem.read_write_of_disjoint]
    exact ByteMem.read_write_self _ _ _ _
  have hsrc : (ipv4Fields head len proto src dest m).read (head + 12) 4 = ntol src := by
    dsimp only [ipv4Fields]
    rw [checksum_read_of_disjoint (by omega)]
    simp (disch := omega) only [ByteMem.read_write_of_disjoint]
    exact ByteMem.read_write_self _ _ _ _
  rw [Ipv4Header.load, ByteMem.read_shift, ByteMem.read_shift, hlen, hsrc]
  change (⟨(ipv4Fields head len proto src dest m (head + 0)).extractLsb' 0 4, _,
    ipv4Fields head len proto src dest m (head + 9), _⟩ : Ipv4Header) = _
  rw [Nat.add_zero, hihl, ipv4Fields_proto]
  rfl

/-! ## ARP packets -/

variable (head : Nat) (operation : BitVec 16) (senderMac targetMac : Mac)
  (senderIp targetIp : BitVec 32)

/-- The fields that `arp_packet` reads. -/
theorem arpFields_read :
    (arpFields head operation senderMac senderIp targetMac targetIp m).read (head + 6) 2 =
        ntos operation ∧
      (arpFields head operation senderMac senderIp targetMac targetIp m).read (head + 8) 6 =
        senderMac ∧
      (arpFields head operation senderMac senderIp targetMac targetIp m).read (head + 14) 4 =
        ntol senderIp ∧
      (arpFields head operation senderMac senderIp targetMac targetIp m).read (head + 24) 4 =
        ntol targetIp := by
  dsimp only [arpFields]
  refine ⟨?_, ?_, ?_, ByteMem.read_write_self _ _ _ _⟩ <;>
  · simp (disch := omega) only [ByteMem.read_write_of_disjoint]
    exact ByteMem.read_write_self _ _ _ _

end BadOs
