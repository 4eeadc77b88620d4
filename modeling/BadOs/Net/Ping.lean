import BadOs.Net.Removal
import BadOs.Net.Segments

/-!
# Echo requests

The reply is built in a new buffer. Its checksum is taken before the payload is copied, over
what that memory held before.
-/

namespace BadOs

variable {σ : Type}

/-- The ICMP message in an IPv4 packet. -/
def icmpOf (packet : ByteMem) : ByteMem := packet.shift (Ipv4Header.load packet).hdrLen.toNat

/-- A packet with an echo request of `len` bytes. -/
structure EchoRequest (packet : ByteMem) (len : Nat) : Prop where
  proto : (Ipv4Header.load packet).proto = 1
  totalLen : (ntos (Ipv4Header.load packet).totalLen).toNat =
    (Ipv4Header.load packet).hdrLen.toNat + len
  header : 8 ≤ len
  even : len % 2 = 0
  type : icmpOf packet 0 = 8

/-- A frame with the reply to the request `icmp` of `len` bytes. -/
structure EchoReply (frame icmp : ByteMem) (len : Nat) (dev : NetDevice) (mac : Mac)
    (sender : BitVec 32) : Prop where
  destMac : frame.read 0 6 = mac
  sizeOrType : ntos (frame.read 12 2) = 0x0800
  ip : Ipv4Header.load (frame.shift 14) = ⟨5, ntos (BitVec.ofNat 16 (20 + len)), 1, ntol dev.ip⟩
  dest : frame.read 30 4 = ntol sender
  type : frame 34 = 0
  code : frame 35 = 0
  id : frame.read 38 2 = icmp.read 4 2
  sequence : frame.read 40 2 = icmp.read 6 2
  payload : frame.slice 42 (len - 8) = icmp.slice 8 (len - 8)
  checksum : OnesComplement.Verifies (OnesComplement.ofBytes (frame.slice 34 len))

/-- The sum of the memory that the payload is copied to stands for that of the payload. -/
def SumsAlike (old icmp : ByteMem) (len : Nat) : Prop :=
  let before := OnesComplement.total (words old 42 ((len - 8) / 2))
  let payload := OnesComplement.total (words icmp 8 ((len - 8) / 2))
  before % 65535 = payload % 65535 ∧
    (before = 0 ∨ 0 < OnesComplement.total (words icmp 4 2) + payload)

instance (old icmp : ByteMem) (len : Nat) : Decidable (SumsAlike old icmp len) :=
  inferInstanceAs (Decidable (_ ∧ _))

/-! ## The message -/

section

variable (id sequence : BitVec 16) (m : ByteMem)

/-- The header of the reply, before the checksum is taken. -/
def pongHeader (id sequence : BitVec 16) (m : ByteMem) : ByteMem :=
  let m := m.fill 34 sizeofIcmpHeader 0
  let m := m.write 34 1 (0 : BitVec 8)
  let m := m.write 35 1 (0 : BitVec 8)
  let m := m.write 38 2 id
  let m := m.write 40 2 sequence
  m.write 36 2 (0 : BitVec 16)

theorem pongFields_eq (data : ByteMem) (len : Nat) : pongFields 34 id sequence data len m =
    (checksum (pongHeader id sequence m) 34 len 36).copy 42 data 8 (len - 8) := rfl

theorem pongHeader_apply {x : Nat} (h : 42 ≤ x) : pongHeader id sequence m x = m x := by
  dsimp only [pongHeader]
  simp (disch := omega) only [ByteMem.write_apply_of_not_mem]
  exact ByteMem.fill_apply_of_not_mem (by change x < 34 ∨ 34 + 8 ≤ x; omega)

theorem pongHeader_type : pongHeader id sequence m 34 = 0 ∧ pongHeader id sequence m 35 = 0 := by
  dsimp only [pongHeader]
  constructor
  · simp (disch := omega) only [ByteMem.write_apply_of_not_mem]
    exact ByteMem.write_byte _ _ _
  · simp (disch := omega) only [ByteMem.write_apply_of_not_mem]
    exact ByteMem.write_byte _ _ _

theorem pongHeader_read : (pongHeader id sequence m).read 38 2 = id ∧
    (pongHeader id sequence m).read 40 2 = sequence := by
  dsimp only [pongHeader]
  constructor
  · simp (disch := omega) only [ByteMem.read_write_of_disjoint]
    exact ByteMem.read_write_self _ _ _ _
  · simp (disch := omega) only [ByteMem.read_write_of_disjoint]
    exact ByteMem.read_write_self _ _ _ _

variable (data : ByteMem) {len : Nat}

theorem pongFields_header {x : Nat} (h : x < 36 ∨ 38 ≤ x ∧ x < 42) :
    pongFields 34 id sequence data len m x = pongHeader id sequence m x := by
  rw [pongFields_eq, ByteMem.copy, if_neg (by omega)]
  exact checksum_apply_of_not_mem (by omega)

theorem pongFields_payload :
    (pongFields 34 id sequence data len m).slice 42 (len - 8) = data.slice 8 (len - 8) := by
  have hcopy := ByteMem.slice_copy (checksum (pongHeader id sequence m) 34 len 36) data 42 8 0
    (len - 8)
  rw [Nat.zero_add] at hcopy
  exact hcopy

/-- The words of the header add up to those of the request and the checksum. -/
theorem total_pongHeader (f : BitVec 16) : OnesComplement.total
    (words ((pongHeader (data.read 4 2) (data.read 6 2) m).write 36 2 (ntos f)) 34 4) =
      f.toNat + OnesComplement.total (words data 4 2) := by
  obtain ⟨htype, hcode⟩ := pongHeader_type (data.read 4 2) (data.read 6 2) m
  obtain ⟨hid, hsequence⟩ := pongHeader_read (data.read 4 2) (data.read 6 2) m
  have hwrite := total_words_write (pongHeader (data.read 4 2) (data.read 6 2) m) 34 1 2 f
  have hfirst : words (pongHeader (data.read 4 2) (data.read 6 2) m) 34 1 = [0] := by
    change [pongHeader _ _ m 34 ++ pongHeader _ _ m 35] = _
    rw [htype, hcode]
    rfl
  have hrest : words (pongHeader (data.read 4 2) (data.read 6 2) m) 38 2 = words data 4 2 := by
    rw [← ofBytes_slice, ← ofBytes_slice]
    apply congrArg
    rw [ByteMem.slice_add _ _ 2 2, ByteMem.slice_add _ _ 2 2, ByteMem.slice_of_read hid,
      ByteMem.slice_of_read hsequence]
  rw [hfirst] at hwrite
  rw [← hrest]
  exact hwrite.trans (by rw [OnesComplement.total_cons]; exact congrArg (· + _) (Nat.zero_add _))

/-- The reply verifies exactly if the sum of the old memory stands for that of the payload. -/
theorem pongFields_verifies_iff (heven : len % 2 = 0) (hlo : 8 ≤ len) (hhi : len ≤ 65535) :
    OnesComplement.Verifies (OnesComplement.ofBytes
      ((pongFields 34 (data.read 4 2) (data.read 6 2) data len m).slice 34 len)) ↔
        SumsAlike m data len := by
  obtain ⟨n, rfl⟩ : ∃ n, len = 2 * (4 + n) := ⟨(len - 8) / 2, by omega⟩
  have hpayload : 2 * (4 + n) - 8 = 2 * n := by omega
  have hhalf : 2 * n / 2 = n := by omega
  have hcount : (2 * (4 + n) + 1) / 2 = 4 + n := by omega
  have hzero : ntos 0 = 0 := by decide
  generalize hh : pongHeader (data.read 4 2) (data.read 6 2) m = h
  have hheader := fun f => total_pongHeader m data f
  rw [hh] at hheader
  have hchecksum : checksum h 34 (2 * (4 + n)) 36 = h.write 36 2
      (ntos (~~~OnesComplement.sum (words (h.write 36 2 (ntos 0)) 34 (4 + n)))) := by
    dsimp only [checksum]
    rw [hcount, checksumFold_sum _ _ (by omega), ByteMem.write_write, hzero]
  have hsummed : OnesComplement.total (words (h.write 36 2 (ntos 0)) 34 (4 + n)) =
      OnesComplement.total (words data 4 2) + OnesComplement.total (words m 42 n) := by
    have hold : words (h.write 36 2 (ntos 0)) 42 n = words m 42 n := by
      apply words_congr
      intro x hx _
      rw [ByteMem.write_apply_of_not_mem (.inr (by omega)), ← hh, pongHeader_apply _ _ _ hx]
    rw [words_add, OnesComplement.total_append, hheader]
    change 0 + _ + OnesComplement.total (words _ 42 n) = _
    rw [hold, Nat.zero_add]
  rw [ofBytes_slice, SumsAlike, pongFields_eq, hh, hchecksum, hpayload, hhalf]
  apply OnesComplement.verifies_replaced_iff hsummed
  generalize ~~~OnesComplement.sum (words (h.write 36 2 (ntos 0)) 34 (4 + n)) = f
  have hfront : words ((h.write 36 2 (ntos f)).copy 42 data 8 (2 * n)) 34 4 =
      words (h.write 36 2 (ntos f)) 34 4 := by
    apply words_congr
    intro x _ hx
    exact if_neg (by omega)
  have hcopied : words ((h.write 36 2 (ntos f)).copy 42 data 8 (2 * n)) 42 n = words data 8 n := by
    have hcopy := ByteMem.slice_copy (h.write 36 2 (ntos f)) data 42 8 0 (2 * n)
    rw [Nat.zero_add] at hcopy
    rw [← ofBytes_slice, ← ofBytes_slice]
    exact congrArg OnesComplement.ofBytes hcopy
  rw [words_add, OnesComplement.total_append, hfront, hheader]
  change _ + OnesComplement.total (words _ 42 n) = _
  rw [hcopied, Nat.add_comm f.toNat]

end

/-! ## The reply -/

section

variable {n : Net}

/-- The frame that answers a request of a known sender. -/
theorem icmpSegment_frame (fresh : n.Fresh) {sender : BitVec 32} (dev : NetDevice)
    {data : ByteMem} {len : BitVec 16} (htype : data 0 = 8) (hlo : 8 ≤ len.toNat)
    (hhi : len.toNat < 65502) {mac : Mac} (hmac : n.macOf sender = some mac) :
    (icmpSegment sender dev data len n).Total fun n' => ∃ frame,
      n'.sent = n.sent ++ [(dev, frame)] ∧ frame.head = 0 ∧ frame.totalSize.toNat = 34 + len.toNat ∧
      frame.data = ipFrame (BitVec.ofNat 16 (20 + len.toNat)) 1 dev.ip sender mac dev.mac
        (pongFields 34 (data.read 4 2) (data.read 6 2) data len.toNat (n.junk n.next)) := by
  have hshort : ¬len < (sizeofIcmpHeader : BitVec 16) := Nat.not_lt_of_le hlo
  dsimp only [icmpSegment]
  rw [if_neg hshort, if_pos htype]
  refine .bind (ipSbuffAlloc_total n len hhi) ?_
  rintro ⟨buf, n₁⟩ b
  have htotal : buf.totalSize.toNat = len.toNat + 34 := b.totalSize
  have hhead : buf.head = 34 := b.head
  have hnet : n₁ = n.kmemAlloc.2 := b.net
  have hdata : buf.data = n.junk n.next := b.data
  have hmac₁ : n₁.macOf sender = some mac := by
    rw [hnet]
    exact hmac
  have hroom : (addRef buf).head + len.toNat ≤ (addRef buf).totalSize.toNat := by
    change buf.head + len.toNat ≤ buf.totalSize.toNat
    omega
  have hrefs : buf.refs + 1 ≠ 0 := by
    rw [show buf.refs = 0 from b.refs]
    decide
  refine .bind (Q := fun s => s.addr = buf.addr ∧ s.head = 34 ∧ s.refs ≠ 0 ∧
    s.totalSize = buf.totalSize ∧ s.data = pongFields 34 (data.read 4 2) (data.read 6 2) data
      len.toNat (n.junk n.next)) ⟨_, SBuff.store_eq hroom _, rfl, hhead, hrefs, rfl, ?_⟩ ?_
  · change pongFields buf.head _ _ data len.toNat buf.data = _
    rw [hhead, hdata]
  rintro s ⟨haddr, hhead, hrefs, hsame, hdata⟩
  have hs : s.addr ∈ n₁.live := haddr.symm ▸ b.mem_live
  refine .bind ((ipSend_total (b.fresh fresh) hs hhead 1 sender dev).and_post
    (ipSend_eq hs hhead 1 (arpLookup_eq_some_iff.mpr hmac₁)).post) ?_
  rintro ⟨_, n₂⟩ ⟨⟨sends, hlive⟩, _, frame, size, hsent, hsize, hframe⟩
  refine ((releaseRef_total sends.fresh (hlive hrefs)).and_post (releaseRef_post _ _)).mono ?_
  rintro n₃ ⟨_, _, _, hsent'⟩
  rw [hsame] at hsize
  have hsize : size = BitVec.ofNat 16 (20 + len.toNat) := by
    apply BitVec.eq_of_toNat_eq
    rw [BitVec.toNat_ofNat, Nat.mod_eq_of_lt (by omega)]
    omega
  refine ⟨frame, ?_, hframe.head, ?_, ?_⟩
  · rw [hsent', hsent, hnet]
    rfl
  · rw [hframe.totalSize, hsame, htotal]
    omega
  · rw [hframe.data, hsize, hdata]

/-- The frame is a reply if its checksum verifies. -/
theorem echoReply_iff {frame icmp old : ByteMem} {len : Nat} {dev : NetDevice} {mac : Mac}
    {sender : BitVec 32} (heven : len % 2 = 0) (hlo : 8 ≤ len) (hhi : len ≤ 65501)
    (hframe : frame = ipFrame (BitVec.ofNat 16 (20 + len)) 1 dev.ip sender mac dev.mac
      (pongFields 34 (icmp.read 4 2) (icmp.read 6 2) icmp len old)) :
    EchoReply frame icmp len dev mac sender ↔ SumsAlike old icmp len := by
  have hmessage := ipFrame_payload (BitVec.ofNat 16 (20 + len)) 1 dev.ip sender mac dev.mac
    (pongFields 34 (icmp.read 4 2) (icmp.read 6 2) icmp len old)
  rw [← hframe] at hmessage
  have hbyte : ∀ x, frame (34 + x) = pongFields 34 (icmp.read 4 2) (icmp.read 6 2) icmp len old
      (34 + x) := fun x => congrFun hmessage x
  have hslice : ∀ a k, frame.slice (34 + a) k =
      (pongFields 34 (icmp.read 4 2) (icmp.read 6 2) icmp len old).slice (34 + a) k := by
    intro a k
    rw [← ByteMem.slice_shift, ← ByteMem.slice_shift, hmessage]
  obtain ⟨htype, hcode⟩ := pongHeader_type (icmp.read 4 2) (icmp.read 6 2) old
  obtain ⟨hid, hsequence⟩ := pongHeader_read (icmp.read 4 2) (icmp.read 6 2) old
  have hread : ∀ a, 38 ≤ a → a ≤ 40 → frame.read a 2 =
      (pongHeader (icmp.read 4 2) (icmp.read 6 2) old).read a 2 := by
    intro a hlow hhigh
    apply ByteMem.read_congr
    intro x hx hx'
    obtain ⟨y, rfl⟩ := Nat.exists_eq_add_of_le (show 34 ≤ x by omega)
    rw [hbyte, pongFields_header _ _ _ _ (by omega)]
  have hverifies := pongFields_verifies_iff old icmp heven hlo (by omega)
  have hwhole := hslice 0 len
  rw [Nat.add_zero] at hwhole
  rw [← hwhole] at hverifies
  rw [← hverifies]
  constructor
  · intro reply
    exact reply.checksum
  · intro hsum
    constructor
    · rw [hframe]
      exact ipFrame_dest _ _ _ _ _ _ _
    · rw [hframe]
      exact ipFrame_type _ _ _ _ _ _ _
    · rw [hframe]
      exact ipFrame_load _ _ _ _ _ _ _
    · rw [hframe]
      exact (ipFrame_addresses _ _ _ _ _ _ _).2
    · exact (hbyte 0).trans ((pongFields_header _ _ _ _ (by decide)).trans htype)
    · exact (hbyte 1).trans ((pongFields_header _ _ _ _ (by decide)).trans hcode)
    · exact (hread 38 (by decide) (by decide)).trans hid
    · exact (hread 40 (by decide) (by decide)).trans hsequence
    · exact (hslice 8 _).trans (pongFields_payload _ _ _ _)
    · exact hsum

end

section

variable {k : Kernel σ} {dev : NetDevice} {packet : ByteMem} {len : Nat}

/-- A packet with an echo request is handed to `icmp_segment`. -/
theorem EchoRequest.ipPacket_eq (h : EchoRequest packet len) (devices : k.net.Devices)
    (dev : NetDevice) :
    ∃ map, len < 65536 ∧ ipPacket dev packet k =
      icmpSegment (ntol (Ipv4Header.load packet).src) dev (icmpOf packet) (BitVec.ofNat 16 len)
        { k.net with ipDevices := map } >>= fun n => .ok { k with net := n } := by
  obtain ⟨_, hn, map, _, rfl⟩ := registerDevice_total devices dev
  have hlt := (ntos (Ipv4Header.load packet).totalLen).isLt
  have htotal := h.totalLen
  have hlen : ntos (Ipv4Header.load packet).totalLen - (Ipv4Header.load packet).hdrLen =
      BitVec.ofNat 16 len := by
    apply BitVec.eq_of_toNat_eq
    rw [BitVec.toNat_sub, BitVec.toNat_ofNat]
    omega
  refine ⟨map, by omega, ?_⟩
  dsimp only [ipPacket]
  rw [hn, Except.ok_bind, if_pos h.proto, hlen]
  rfl

/-- A request from a known address is answered with a reply exactly if the reply fits in a buffer
and the old memory stands for the payload. -/
theorem ipPacket_echo_iff (h : EchoRequest packet len) (fresh : k.net.Fresh)
    (devices : k.net.Devices) {mac : Mac}
    (hmac : k.net.macOf (ntol (Ipv4Header.load packet).src) = some mac) :
    ((ipPacket dev packet k).Total fun k' => ∃ frame, k'.net.sent = k.net.sent ++ [(dev, frame)] ∧
        frame.head = 0 ∧ frame.totalSize.toNat = 34 + len ∧
        EchoReply frame.data (icmpOf packet) len dev mac (ntol (Ipv4Header.load packet).src)) ↔
      len ≤ 65501 ∧ SumsAlike (k.net.junk k.net.next) (icmpOf packet) len := by
  obtain ⟨map, hlt, hpacket⟩ := h.ipPacket_eq devices dev
  have hlen : (BitVec.ofNat 16 len).toNat = len := by
    rw [BitVec.toNat_ofNat]
    exact Nat.mod_eq_of_lt hlt
  rw [hpacket]
  by_cases hfits : len ≤ 65501
  · obtain ⟨n', hn', frame, hsent, hhead, htotal, hdata⟩ :=
      icmpSegment_frame (n := { k.net with ipDevices := map }) fresh dev h.type
        (hlen.symm ▸ h.header) (by omega) hmac
    rw [hlen] at htotal hdata
    have hiff := echoReply_iff h.even h.header hfits hdata
    rw [hn', and_iff_right hfits]
    constructor
    · rintro ⟨_, hk', frame', hsent', _, _, reply⟩
      cases hk'
      cases List.append_cancel_left (hsent'.symm.trans hsent)
      exact hiff.mp reply
    · intro hsums
      exact .ok ⟨frame, hsent, hhead, htotal, hiff.mpr hsums⟩
  · rw [icmpSegment_panic _ dev h.type (by omega)]
    constructor
    · rintro ⟨_, hk', _⟩
      cases hk'
    · rintro ⟨hfits', _⟩
      exact absurd hfits' hfits

end

/-- Two bytes of payload, and a heap that is full of ones. -/
theorem icmp_echo_unverified : ¬∀ (junk : Nat → ByteMem) (app : Unit) (ops : List (KernelOp Unit))
    (k : Kernel Unit), Transition.exec kernelStep (.boot junk app) ops = .ok k →
    ∀ (dev : NetDevice) (packet : ByteMem) (len : Nat) (mac : Mac), EchoRequest packet len →
      k.net.macOf (ntol (Ipv4Header.load packet).src) = some mac →
      (ipPacket dev packet k).Total fun k' => ∃ frame, k'.net.sent = k.net.sent ++ [(dev, frame)] ∧
        frame.head = 0 ∧ frame.totalSize.toNat = 34 + len ∧
        EchoReply frame.data (icmpOf packet) len dev mac (ntol (Ipv4Header.load packet).src) := by
  intro claim
  have hrun : Transition.check kernelStep (fun _ _ => True)
      (fun k => decide (k.net.macOf
        (ntol (Ipv4Header.load ((pingFrame 30).shift 14)).src) = some 0x060504030201) &&
        !decide (SumsAlike (k.net.junk k.net.next) (icmpOf ((pingFrame 30).shift 14)) 10))
      (Kernel.boot (fun _ _ => 1) ()) [.frame ⟨0xC0A80302, 0⟩ peerArp] = true := by
    decide +kernel
  obtain ⟨k, run, hpost⟩ := Transition.Run.of_check hrun
  obtain ⟨hmac, hsums⟩ := Bool.and_eq_true_iff.mp hpost
  have hmac := of_decide_eq_true hmac
  have hrequest : EchoRequest ((pingFrame 30).shift 14) 10 := by
    constructor <;> decide
  have heap := (run_heapSound run.exec_eq).1
  have hreply := (ipPacket_echo_iff hrequest heap.fresh heap.devices hmac).mp
    (claim _ _ _ k run.exec_eq ⟨0xC0A80302, 0⟩ _ 10 _ hrequest hmac)
  rw [decide_eq_true hreply.2] at hsums
  cases hsums

/-- In every state of every run, a request from a known address is answered with one frame that
is a reply to it exactly if its message has at most 65501 bytes, and what the memory of the
new buffer held adds up to the same as the payload. -/
theorem icmp_echo_iff (junk : Nat → ByteMem) (app : σ) (ops : List (KernelOp σ)) (k : Kernel σ)
    (run : Transition.exec kernelStep (.boot junk app) ops = .ok k) (dev : NetDevice)
    (packet : ByteMem) (len : Nat) (mac : Mac) (h : EchoRequest packet len)
    (hmac : k.net.macOf (ntol (Ipv4Header.load packet).src) = some mac) :
    ((ipPacket dev packet k).Total fun k' => ∃ frame, k'.net.sent = k.net.sent ++ [(dev, frame)] ∧
        frame.head = 0 ∧ frame.totalSize.toNat = 34 + len ∧
        EchoReply frame.data (icmpOf packet) len dev mac (ntol (Ipv4Header.load packet).src)) ↔
      len ≤ 65501 ∧ SumsAlike (k.net.junk k.net.next) (icmpOf packet) len := by
  have heap := (run_heapSound run).1
  exact ipPacket_echo_iff h heap.fresh heap.devices hmac

/-- Four bytes of ones, which the memory of the buffer held before too. -/
theorem icmp_echo_ones : ∃ (packet : ByteMem) (k k' : Kernel Unit) (frame : SBuff),
    (icmpOf packet).slice 8 4 = [1, 1, 1, 1] ∧
      Transition.exec kernelStep (.boot (fun _ _ => 1) ()) [.frame ⟨0xC0A80302, 0⟩ peerArp] =
        .ok k ∧
      ipPacket ⟨0xC0A80302, 0⟩ packet k = .ok k' ∧
      k'.net.sent = k.net.sent ++ [(⟨0xC0A80302, 0⟩, frame)] ∧
      EchoReply frame.data (icmpOf packet) 12 ⟨0xC0A80302, 0⟩ 0x060504030201 0xC0A80301 := by
  let packet : ByteMem := ((pingFrame 32).fill 42 4 1).shift 14
  have hrun : Transition.check kernelStep (fun _ _ => True)
      (fun k => decide (k.net.macOf (ntol (Ipv4Header.load packet).src) = some 0x060504030201) &&
        decide (SumsAlike (k.net.junk k.net.next) (icmpOf packet) 12))
      (Kernel.boot (fun _ _ => 1) ()) [.frame ⟨0xC0A80302, 0⟩ peerArp] = true := by
    decide +kernel
  obtain ⟨k, run, hpost⟩ := Transition.Run.of_check hrun
  obtain ⟨hmac, hsums⟩ := Bool.and_eq_true_iff.mp hpost
  have hrequest : EchoRequest packet 12 := by
    constructor <;> decide
  obtain ⟨k', hk', frame, hsent, _, _, reply⟩ :=
    (icmp_echo_iff _ () _ k run.exec_eq ⟨0xC0A80302, 0⟩ _ 12 _ hrequest
      (of_decide_eq_true hmac)).mpr ⟨by decide, of_decide_eq_true hsums⟩
  rw [show ntol (Ipv4Header.load packet).src = 0xC0A80301 by decide] at reply
  exact ⟨packet, k, k', frame, by decide, run.exec_eq, hk', hsent, reply⟩

end BadOs
