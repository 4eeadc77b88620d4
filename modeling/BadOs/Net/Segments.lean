import BadOs.Net.Comparison
import BadOs.Net.Encapsulation

/-!
# TCP segments in frames

What the sending functions store in a buffer is what a receiver finds in the frame: the
header, the payload, and a checksum over both and the pseudo-header. The pseudo-header itself
is gone, as the IP header was written over it.
-/

namespace BadOs

/-! ## The header -/

theorem append_extractLsb' (high low : BitVec 4) :
    (high ++ low : BitVec 8).extractLsb' 0 4 = low ∧
      (high ++ low : BitVec 8).extractLsb' 4 4 = high := by
  constructor
  · apply BitVec.eq_of_getLsbD_eq
    intro i hi
    simp only [BitVec.getLsbD_extractLsb', BitVec.getLsbD_append]
    grind
  · apply BitVec.eq_of_getLsbD_eq
    intro i hi
    simp only [BitVec.getLsbD_extractLsb', BitVec.getLsbD_append]
    grind

/-- The words of a header are where they were stored. -/
theorem TcpHdr.store_read (h : TcpHdr) (a : Nat) (m : ByteMem) :
    (h.store a m).read a 2 = h.srcPort ∧ (h.store a m).read (a + 2) 2 = h.destPort ∧
      (h.store a m).read (a + 4) 4 = h.sequence ∧ (h.store a m).read (a + 8) 4 = h.ack ∧
      (h.store a m).read (a + 14) 2 = h.window ∧ (h.store a m).read (a + 16) 2 = h.chksum := by
  dsimp only [TcpHdr.store]
  refine ⟨?_, ?_, ?_, ?_, ?_, ByteMem.read_write_self _ _ _ _⟩ <;>
  · simp (disch := omega) only [ByteMem.read_write_of_disjoint]
    exact ByteMem.read_write_self _ _ _ _

/-- The header that was stored is loaded. -/
theorem TcpHdr.load_store (h : TcpHdr) (a : Nat) (m : ByteMem) :
    TcpHdr.load ((h.store a m).shift a) = h := by
  obtain ⟨hsrc, hdest, hseq, hack, hwindow, hsum⟩ := h.store_read a m
  obtain ⟨hlow, hhigh⟩ := append_extractLsb' h.offset h.reserved
  have hnibbles : (h.store a m).shift a 12 = h.offset ++ h.reserved := by
    dsimp only [TcpHdr.store, ByteMem.shift]
    simp (disch := omega) only [ByteMem.write_apply_of_not_mem]
    exact ByteMem.write_byte _ _ _
  have hflags : (h.store a m).shift a 13 = h.flags := by
    dsimp only [TcpHdr.store, ByteMem.shift]
    simp (disch := omega) only [ByteMem.write_apply_of_not_mem]
    exact ByteMem.write_byte _ _ _
  simp only [TcpHdr.load, ByteMem.read_shift, Nat.add_zero, hsrc, hdest, hseq, hack, hwindow,
    hsum, hnibbles, hflags, hlow, hhigh]

/-- The header depends on its bytes. -/
theorem TcpHdr.load_eq {m m' : ByteMem} (same : ∀ x, x < 16 → m x = m' x) :
    TcpHdr.load m = { TcpHdr.load m' with chksum := m.read 16 2 } := by
  have hread : ∀ a n, a + n ≤ 16 → m.read a n = m'.read a n := fun a n hn =>
    ByteMem.read_congr fun x _ hx => same x (by omega)
  rw [TcpHdr.load, TcpHdr.load, hread 0 2 (by decide), hread 2 2 (by decide),
    hread 4 4 (by decide), hread 8 4 (by decide), hread 14 2 (by decide), same 12 (by decide),
    same 13 (by decide)]

/-! ## The buffer of a segment -/

/-- The pseudo-header in front of a header at `head`. -/
def pseudoFields (head : Nat) (len : BitVec 16) (src dest : BitVec 32) (m : ByteMem) : ByteMem :=
  let m := m.write (head - 12) 4 (ntol src)
  let m := m.write (head - 12 + 4) 4 (ntol dest)
  let m := m.write (head - 12 + 8) 1 (0 : BitVec 8)
  let m := m.write (head - 12 + 9) 1 (6 : BitVec 8)
  m.write (head - 12 + 10) 2 (ntos len)

theorem tcpChecksum_eq {sb : SBuff} (h : sb.head - 12 + 30 ≤ sb.totalSize.toNat)
    (len : BitVec 16) (src dest : BitVec 32) :
    tcpChecksum sb len src dest = .ok { sb with
      data := checksum (pseudoFields sb.head len src dest sb.data) (sb.head - 12)
        (12 + len.toNat) (sb.head + 16) } := by
  unfold tcpChecksum
  exact SBuff.store_eq h _

/-- The buffer with the header at 34, the payload at 54 and the checksum in place. -/
def segmentMem (hdr : TcpHdr) (data : ByteMem) (sz : BitVec 16) (src dest : BitVec 32)
    (m : ByteMem) : ByteMem :=
  checksum (pseudoFields 34 (20 + sz) src dest
    ((hdr.store 34 m).copy 54 data 0 sz.toNat)) 22 (12 + (20 + sz).toNat) 50

section

variable {n : Net} {sb : SBuff} {sz : BitVec 16}

/-- The stores stay in the buffer, which is then sent. -/
theorem sendSegment_ipSend (hhead : sb.head = 34) (hsize : 54 + sz.toNat ≤ sb.totalSize.toNat)
    (hdr : TcpHdr) (data : ByteMem) (dest : BitVec 32) (dev : NetDevice) (n : Net) :
    sendSegment sb hdr data sz dest dev n =
      ipSend { sb with data := segmentMem hdr data sz dev.ip dest sb.data } 6 dest dev n >>=
        fun r => .ok r.2 := by
  have hroom : sb.head + 20 ≤ sb.totalSize.toNat := by omega
  have hroom₁ : sb.head + 20 + sz.toNat ≤ sb.totalSize.toNat := by omega
  have hroom₂ : sb.head - 12 + 30 ≤ sb.totalSize.toNat := by omega
  unfold sendSegment
  rw [SBuff.store_eq hroom, Except.ok_bind]
  dsimp only
  rw [SBuff.store_eq (by exact hroom₁), Except.ok_bind, tcpChecksum_eq (by exact hroom₂),
    Except.ok_bind]
  have hdata : checksum (pseudoFields sb.head (20 + sz) dev.ip dest
      ((hdr.store sb.head sb.data).copy (sb.head + 20) data 0 sz.toNat)) (sb.head - 12)
      (12 + (20 + sz).toNat) (sb.head + 16) = segmentMem hdr data sz dev.ip dest sb.data := by
    rw [hhead]
    rfl
  rw [← hdata]
  rfl

/-- When the address is known, the segment is sent in a frame. -/
theorem sendSegment_eq (hs : sb.addr ∈ n.live) (hhead : sb.head = 34)
    (hsize : 54 + sz.toNat ≤ sb.totalSize.toNat) (hdr : TcpHdr) (data : ByteMem)
    {dest : BitVec 32} (dev : NetDevice) {mac : Mac} (hmac : n.macOf dest = some mac) :
    (sendSegment sb hdr data sz dest dev n).Total fun n' => ∃ frame len,
      n'.sent = n.sent ++ [(dev, frame)] ∧ len.toNat + 14 = sb.totalSize.toNat ∧
        Framed sb frame (ipFrame len 6 dev.ip dest mac dev.mac
          (segmentMem hdr data sz dev.ip dest sb.data)) := by
  rw [sendSegment_ipSend hhead hsize]
  refine .bind (ipSend_eq (by exact hs) (by exact hhead) 6 (arpLookup_eq_some_iff.mpr hmac)) ?_
  rintro ⟨_, n'⟩ ⟨_, frame, len, hsent, hlen, hframe⟩
  exact .ok ⟨frame, len, hsent, hlen, hframe.head, hframe.totalSize, hframe.data⟩

end

section

variable (hdr : TcpHdr) (data : ByteMem) (sz : BitVec 16) (src dest : BitVec 32) (m : ByteMem)

theorem pseudoFields_apply {x : Nat} (len : BitVec 16) (h : 34 ≤ x) :
    pseudoFields 34 len src dest m x = m x := by
  dsimp only [pseudoFields]
  simp (disch := omega) only [ByteMem.write_apply_of_not_mem]

theorem segmentMem_header {x : Nat} (hlo : 34 ≤ x) (hhi : x < 50) :
    segmentMem hdr data sz src dest m x = hdr.store 34 m x := by
  dsimp only [segmentMem]
  rw [checksum_apply_of_not_mem (by omega), pseudoFields_apply _ _ _ _ hlo]
  exact if_neg (by omega)

theorem segmentMem_body {x : Nat} (h : 54 ≤ x) :
    segmentMem hdr data sz src dest m x = (m.copy 54 data 0 sz.toNat) x := by
  dsimp only [segmentMem]
  rw [checksum_apply_of_not_mem (by omega), pseudoFields_apply _ _ _ _ (by omega)]
  unfold ByteMem.copy
  split
  · rfl
  · dsimp only [TcpHdr.store]
    simp (disch := omega) only [ByteMem.write_apply_of_not_mem]

/-- The receiver finds the header, with its checksum. -/
theorem segmentMem_load :
    TcpHdr.load ((segmentMem hdr data sz src dest m).shift 34) =
      { hdr with chksum := (segmentMem hdr data sz src dest m).read 50 2 } := by
  have hheader : ∀ x, x < 16 →
      (segmentMem hdr data sz src dest m).shift 34 x = (hdr.store 34 m).shift 34 x := by
    intro x hx
    exact segmentMem_header hdr data sz src dest m (by omega) (by omega)
  rw [TcpHdr.load_eq hheader, TcpHdr.load_store, ByteMem.read_shift]

theorem segmentMem_payload :
    (segmentMem hdr data sz src dest m).slice 54 sz.toNat = data.slice 0 sz.toNat := by
  rw [← slice_copy_self m data 54 sz.toNat]
  exact ByteMem.slice_congr fun x hx _ => segmentMem_body hdr data sz src dest m hx

theorem ipFrame_segment_payload (len : BitVec 16) (destMac source : Mac) :
    (ipFrame len 6 src dest destMac source (segmentMem hdr data sz src dest m)).slice 54 sz.toNat =
      data.slice 0 sz.toNat := by
  rw [← segmentMem_payload hdr data sz src dest m]
  have hpayload := congrArg (fun f : ByteMem => f.slice 20 sz.toNat)
    (ipFrame_payload len 6 src dest destMac source (segmentMem hdr data sz src dest m))
  rwa [ByteMem.slice_shift, ByteMem.slice_shift] at hpayload

/-! ## The receiver's check -/

/-- The bytes over which a receiver takes the checksum of the segment in a frame: the
pseudo-header, made of the fields of the IPv4 header, and the segment. -/
def checkedBytes (frame : ByteMem) : List (BitVec 8) :=
  let packet := frame.shift sizeofEthernetFrame
  let ip := Ipv4Header.load packet
  let len := ntos ip.totalLen - ip.hdrLen
  packet.slice 12 4 ++ packet.slice 16 4 ++ [0, ip.proto] ++
    [len.extractLsb' 8 8, len.extractLsb' 0 8] ++ packet.slice ip.hdrLen.toNat len.toNat

/-- The segment in the frame verifies. -/
def SegmentVerifies (frame : ByteMem) : Prop :=
  OnesComplement.Verifies (OnesComplement.ofBytes (checkedBytes frame))

theorem ipFrame_addresses (len : BitVec 16) (proto : BitVec 8) (destMac source : Mac) :
    (ipFrame len proto src dest destMac source m).read 26 4 = ntol src ∧
      (ipFrame len proto src dest destMac source m).read 30 4 = ntol dest := by
  have hframe : ∀ a, 14 ≤ a → (ipFrame len proto src dest destMac source m).read a 4 =
      (ipv4Fields 14 len proto src dest m).read a 4 := fun a ha => ethernetHeader_read _ _ _ _ ha
  rw [hframe 26 (by decide), hframe 30 (by decide)]
  dsimp only [ipv4Fields]
  rw [checksum_read_of_disjoint (by omega), checksum_read_of_disjoint (by omega)]
  refine ⟨?_, ByteMem.read_write_self _ _ _ _⟩
  rw [ByteMem.read_write_of_disjoint (by omega)]
  exact ByteMem.read_write_self _ _ _ _

/-- The pseudo-header of the sender has the bytes that the receiver takes from the frame. -/
theorem pseudoFields_slice {frame : ByteMem} {a b : Nat} (hsrc : frame.read a 4 = ntol src)
    (hdest : frame.read b 4 = ntol dest) (len : BitVec 16) :
    (pseudoFields 34 len src dest m).slice 22 12 = frame.slice a 4 ++ frame.slice b 4 ++ [0, 6] ++
      [len.extractLsb' 8 8, len.extractLsb' 0 8] := by
  have hsrc : (pseudoFields 34 len src dest m).slice 22 4 = frame.slice a 4 := by
    apply ByteMem.slice_of_read
    dsimp only [pseudoFields]
    simp (disch := omega) only [ByteMem.read_write_of_disjoint]
    rw [ByteMem.read_write_self, hsrc]
  have hdest : (pseudoFields 34 len src dest m).slice 26 4 = frame.slice b 4 := by
    apply ByteMem.slice_of_read
    dsimp only [pseudoFields]
    simp (disch := omega) only [ByteMem.read_write_of_disjoint]
    rw [ByteMem.read_write_self, hdest]
  have hzero : pseudoFields 34 len src dest m 30 = 0 := by
    dsimp only [pseudoFields]
    simp (disch := omega) only [ByteMem.write_apply_of_not_mem]
    exact ByteMem.write_byte _ _ _
  have hproto : pseudoFields 34 len src dest m 31 = 6 := by
    dsimp only [pseudoFields]
    simp (disch := omega) only [ByteMem.write_apply_of_not_mem]
    exact ByteMem.write_byte _ _ _
  have hmiddle : (pseudoFields 34 len src dest m).slice 30 2 = [0, 6] :=
    congrArg₂ (fun b b' => [b, b']) hzero hproto
  have hlen : (pseudoFields 34 len src dest m).slice 32 2 =
      [len.extractLsb' 8 8, len.extractLsb' 0 8] := slice_write_ntos _ _ _
  rw [show 12 = 4 + 4 + 2 + 2 from rfl, ByteMem.slice_add, ByteMem.slice_add, ByteMem.slice_add,
    hsrc, hdest, hmiddle, hlen]

/-- The bytes that the receiver checks are those over which the checksum was taken. -/
theorem checkedBytes_eq {len : BitVec 16} (hlen : len.toNat = 40 + sz.toNat)
    (destMac source : Mac) :
    checkedBytes (ipFrame len 6 src dest destMac source (segmentMem hdr data sz src dest m)) =
      (segmentMem hdr data sz src dest m).slice 22 (12 + (20 + sz).toNat) := by
  have hlt := len.isLt
  have hsz : (20 + sz).toNat = 20 + sz.toNat := segmentSize_toNat (by omega)
  have hcount : len - 20 = 20 + sz := by bv_omega
  obtain ⟨hsrc, hdest⟩ := ipFrame_addresses src dest (segmentMem hdr data sz src dest m) len 6
    destMac source
  have hpayload := ipFrame_payload len 6 src dest destMac source (segmentMem hdr data sz src dest m)
  have hload := ipFrame_load len 6 src dest destMac source (segmentMem hdr data sz src dest m)
  have hpseudo : (segmentMem hdr data sz src dest m).slice 22 12 =
      (pseudoFields 34 (20 + sz) src dest
        ((hdr.store 34 m).copy 54 data 0 sz.toNat)).slice 22 12 :=
    ByteMem.slice_congr fun x _ hx => checksum_apply_of_not_mem (by omega)
  have hrest : (ipFrame len 6 src dest destMac source
      (segmentMem hdr data sz src dest m)).slice 34 (20 + sz).toNat =
      (segmentMem hdr data sz src dest m).slice 34 (20 + sz).toNat := by
    have hslice := congrArg (fun f : ByteMem => f.slice 0 (20 + sz).toNat) hpayload
    rwa [ByteMem.slice_shift, ByteMem.slice_shift] at hslice
  rw [ByteMem.slice_add, hpseudo, pseudoFields_slice src dest _ hsrc hdest]
  dsimp only [checkedBytes]
  rw [hload]
  have hheader : Ipv4Header.hdrLen ⟨5, ntos len, 6, ntol src⟩ = 20 := rfl
  rw [hheader, ntos_ntos, hcount, ByteMem.slice_shift, ByteMem.slice_shift, ByteMem.slice_shift,
    ← hrest]
  rfl

/-- An odd number of bytes is summed together with the byte behind the buffer. -/
theorem segmentVerifies_iff {len : BitVec 16} (hlen : len.toNat = 40 + sz.toNat)
    (destMac source : Mac) :
    SegmentVerifies (ipFrame len 6 src dest destMac source (segmentMem hdr data sz src dest m)) ↔
      sz.toNat % 2 = 0 ∨ m (54 + sz.toNat) = 0 := by
  have hlt := len.isLt
  have hsz : (20 + sz).toNat = 20 + sz.toNat := segmentSize_toNat (by omega)
  have hnext : pseudoFields 34 (20 + sz) src dest ((hdr.store 34 m).copy 54 data 0 sz.toNat)
      (22 + (12 + (20 + sz).toNat)) = m (54 + sz.toNat) := by
    have hoff : 22 + (12 + (20 + sz).toNat) = 54 + sz.toNat := by omega
    rw [hoff, pseudoFields_apply _ _ _ _ (by omega)]
    unfold ByteMem.copy
    rw [if_neg (by omega)]
    dsimp only [TcpHdr.store]
    simp (disch := omega) only [ByteMem.write_apply_of_not_mem]
  have hverifies := checksum_verifies_iff
    (pseudoFields 34 (20 + sz) src dest ((hdr.store 34 m).copy 54 data 0 sz.toNat)) 22
    (12 + (20 + sz).toNat) 14 (by omega) (by omega)
  rw [hnext] at hverifies
  rw [SegmentVerifies, checkedBytes_eq hdr data sz src dest m hlen]
  refine hverifies.trans (or_congr_left ?_)
  omega

/-- The headers in front of the packet do not depend on what was there. -/
theorem ipFrame_front (len : BitVec 16) (proto : BitVec 8) (destMac source : Mac) (m' : ByteMem)
    {x : Nat} (hx : x < 34) :
    ipFrame len proto src dest destMac source m x =
      ipFrame len proto src dest destMac source m' x := by
  have hsame := ethernetHeader_sameOn
    (ipv4Fields_sameOn (ByteMem.SameOn.empty m m') 14 len proto src dest) 0 0x0800 destMac source
  apply hsame
  by_cases hlow : x < 14
  · exact Or.inr ⟨Nat.zero_le x, hlow⟩
  · exact Or.inl (Or.inr ⟨Nat.le_of_not_lt hlow, hx⟩)

end

/-! ## `tcp_send` -/

section

variable {σ : Type} (s : Stream σ) (k : Kernel σ) (data : ByteMem) {sz : BitVec 16} {mac : Mac}

/-- The frame of a segment that is sent to a known address. -/
theorem tcpSend_frame (hsz : sz.toNat + 54 ≤ 65535) (hmac : k.net.macOf s.remoteAddr = some mac) :
    (tcpSend s data sz k).Total fun r => ∃ frame len,
      r.2.net.sent = k.net.sent ++ [(s.dev, frame)] ∧ frame.head = 0 ∧
      frame.totalSize.toNat = 54 + sz.toNat ∧ len.toNat = 40 + sz.toNat ∧
      frame.data = ipFrame len 6 s.dev.ip s.remoteAddr mac s.dev.mac
        (segmentMem (headerFromStream s TcpFlag.psh).1 data sz s.dev.ip s.remoteAddr
          (k.net.junk k.net.next)) := by
  have hsize : (20 + sz).toNat = 20 + sz.toNat := segmentSize_toNat (by omega)
  refine .bind (ipSbuffAlloc_total k.net (20 + sz) (by omega)) ?_
  rintro ⟨sb, n₁⟩ b
  have htotal : sb.totalSize.toNat = (20 + sz : BitVec 16).toNat + 34 := b.totalSize
  have hnet : n₁ = k.net.kmemAlloc.2 := b.net
  have hdata : sb.data = k.net.junk k.net.next := b.data
  have hmac₁ : n₁.macOf s.remoteAddr = some mac := by
    rw [hnet]
    exact hmac
  have hroom : 54 + sz.toNat ≤ sb.totalSize.toNat := by omega
  refine .bind (sendSegment_eq b.mem_live b.head hroom (headerFromStream s TcpFlag.psh).1 data
    s.dev hmac₁) ?_
  rintro n₂ ⟨frame, len, hsent, hlen, hframe⟩
  have hlen : len.toNat + 14 = sb.totalSize.toNat := hlen
  refine .ok ⟨frame, len, ?_, hframe.head, ?_, by omega, ?_⟩
  · rw [hnet] at hsent
    exact hsent
  · rw [hframe.totalSize]
    change sb.totalSize.toNat = _
    omega
  · rw [hframe.data]
    change ipFrame len 6 _ _ _ _ (segmentMem _ data sz _ _ sb.data) = _
    rw [hdata]

/-- A segment that is sent carries the payload, and nothing of the pseudo-header is left in
front of it. The receiver's check succeeds exactly if the number of bytes is even, or the byte
behind the buffer happens to be zero. -/
theorem tcp_send_verifies_iff (hsz : sz.toNat + 54 ≤ 65535)
    (hmac : k.net.macOf s.remoteAddr = some mac) :
    ∃ r frame, tcpSend s data sz k = .ok r ∧ r.2.net.sent = k.net.sent ++ [(s.dev, frame)] ∧
      frame.totalSize.toNat = 54 + sz.toNat ∧
      frame.data.slice 54 sz.toNat = data.slice 0 sz.toNat ∧
      (∀ x < 34, frame.data x = ipFrame (40 + sz) 6 s.dev.ip s.remoteAddr mac s.dev.mac
        (fun _ => 0) x) ∧
      (SegmentVerifies frame.data ↔
        sz.toNat % 2 = 0 ∨ k.net.junk k.net.next (54 + sz.toNat) = 0) := by
  obtain ⟨r, hrun, frame, len, hsent, _, htotal, hlen, hdata⟩ := tcpSend_frame s k data hsz hmac
  have hlen' : 40 + sz = len := by bv_omega
  refine ⟨r, frame, hrun, hsent, htotal, ?_, fun x hx => ?_, ?_⟩
  · rw [hdata]
    exact ipFrame_segment_payload _ _ _ _ _ _ _ _ _
  · rw [hdata, hlen']
    exact ipFrame_front _ _ _ _ _ _ _ _ hx
  · rw [hdata]
    exact segmentVerifies_iff _ _ _ _ _ _ hlen _ _

end

/-- A stream to a known peer, on a heap that is full of ones, for concrete runs. -/
def peerKernel : Kernel Unit :=
  { Kernel.boot (fun _ _ => 1) () with
    net := { (Kernel.boot (fun _ _ => 1) ()).net with
      table := ⟨[(0xC0A80301, 5)], by decide⟩ } }

def peerStream : Stream Unit :=
  newStream 0 (fun _ => 0) ⟨0xC0A80302, 7⟩ 80 1000 0xC0A80301 1 fun app _ _ _ => (app, [])

/-- One byte is sent. -/
theorem tcp_send_odd : ¬∀ (s : Stream Unit) (k : Kernel Unit) (data : ByteMem) (sz : BitVec 16)
    (mac : Mac), sz.toNat + 54 ≤ 65535 → k.net.macOf s.remoteAddr = some mac →
      ∃ r frame, tcpSend s data sz k = .ok r ∧ r.2.net.sent = k.net.sent ++ [(s.dev, frame)] ∧
        SegmentVerifies frame.data := by
  intro claim
  have hsz : (1 : BitVec 16).toNat + 54 ≤ 65535 := by decide
  have hmac : peerKernel.net.macOf peerStream.remoteAddr = some 5 := rfl
  obtain ⟨r, frame, hrun, hsent, hverifies⟩ :=
    claim peerStream peerKernel (fun _ => 0) 1 5 hsz hmac
  obtain ⟨r', hrun', frame', len, hsent', _, _, hlen, hdata⟩ :=
    tcpSend_frame peerStream peerKernel (fun _ => 0) hsz hmac
  cases hrun.symm.trans hrun'
  have hframes := List.append_cancel_left (hsent.symm.trans hsent')
  cases hframes
  rw [hdata, segmentVerifies_iff _ _ _ _ _ _ hlen] at hverifies
  exact absurd hverifies (by decide)

theorem tcp_send_verifies_even : ∃ r frame, tcpSend peerStream (fun _ => 65) 2 peerKernel = .ok r ∧
    r.2.net.sent = peerKernel.net.sent ++ [(peerStream.dev, frame)] ∧
      frame.data.slice 54 2 = [65, 65] ∧ SegmentVerifies frame.data := by
  have hsz : (2 : BitVec 16).toNat + 54 ≤ 65535 := by decide
  have hmac : peerKernel.net.macOf peerStream.remoteAddr = some 5 := rfl
  obtain ⟨r, frame, hrun, hsent, _, hpayload, _, hverifies⟩ :=
    tcp_send_verifies_iff peerStream peerKernel (fun _ => 65) hsz hmac
  exact ⟨r, frame, hrun, hsent, hpayload, hverifies.mpr (Or.inl (by decide))⟩

end BadOs
