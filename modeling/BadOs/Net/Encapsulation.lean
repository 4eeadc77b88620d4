import BadOs.Net.Checksum
import BadOs.Net.Headers
import BadOs.Net.Sending

/-!
# Packets in frames

What `ip_send` and `ethernet_send` put in front of a packet is what `ethernet_packet` and
`ip_packet` read: the packet reaches the function for its protocol.
-/

namespace BadOs

variable {σ : Type}

/-- The frame with both headers in front of the packet, which starts at 34. -/
def ipFrame (len : BitVec 16) (proto : BitVec 8) (src dest : BitVec 32) (destMac source : Mac)
    (m : ByteMem) : ByteMem :=
  ethernetHeader 0 0x0800 destMac source (ipv4Fields 14 len proto src dest m)

/-! ## Reading a frame -/

section

variable (len : BitVec 16) (proto : BitVec 8) (src dest : BitVec 32) (destMac source : Mac)
  (m : ByteMem)

theorem ipFrame_dest : (ipFrame len proto src dest destMac source m).read 0 6 = destMac :=
  ethernetHeader_dest _ _ _ 0 _

theorem ipFrame_type : ntos ((ipFrame len proto src dest destMac source m).read 12 2) = 0x0800 := by
  have hread := ethernetHeader_type destMac source (ipv4Fields 14 len proto src dest m) 0 0x0800
  rw [Nat.zero_add] at hread
  rw [ipFrame, hread, ntos_ntos]

theorem ipFrame_payload :
    (ipFrame len proto src dest destMac source m).shift 34 = m.shift 34 := by
  funext x
  change ethernetHeader 0 _ _ _ _ (34 + x) = m (34 + x)
  rw [ethernetHeader_apply _ _ _ _ (by omega), ipv4Fields_apply _ _ _ _ _ (by omega)]

theorem ipFrame_load : Ipv4Header.load ((ipFrame len proto src dest destMac source m).shift 14) =
    ⟨5, ntos len, proto, ntol src⟩ := by
  have hframe : (ipFrame len proto src dest destMac source m).shift 14 =
      (ipv4Fields 14 len proto src dest m).shift 14 := by
    funext x
    exact ethernetHeader_apply _ _ _ _ (by omega)
  rw [hframe, ipv4Fields_load]

/-- The header that is sent verifies. -/
theorem ipFrame_verifies :
    OnesComplement.Verifies (words (ipFrame len proto src dest destMac source m) 14 10) := by
  have hframe : words (ipFrame len proto src dest destMac source m) 14 10 =
      words (ipv4Fields 14 len proto src dest m) 14 10 :=
    words_congr fun x hx _ => ethernetHeader_apply _ _ _ _ hx
  rw [hframe]
  exact checksum_verifies _ 14 5 4 (by decide)

/-- A device that receives the frame calls the function for the protocol, with the packet,
its length and the address of the sender. -/
theorem ethernetPacket_ipFrame (dev : NetDevice) (k : Kernel σ) :
    ethernetPacket dev (ipFrame len proto src dest destMac source m) k =
      registerDevice dev k.net >>= fun n =>
        if proto = 1 then
          icmpSegment src dev (m.shift 34) (len - 20) n >>= fun n => .ok { k with net := n }
        else if proto = 6 then
          tcpSegment dev (m.shift 34) (len.setWidth 32 - 20) src { k with net := n }
        else if proto = 17 then udpDatagram dev (m.shift 34) src { k with net := n }
        else .ok { k with net := n } := by
  dsimp only [ethernetPacket]
  rw [if_pos (ipFrame_type len proto src dest destMac source m)]
  dsimp only [ipPacket]
  rw [ipFrame_load]
  dsimp only
  have hlen : Ipv4Header.hdrLen ⟨5, ntos len, proto, ntol src⟩ = 20 := rfl
  rw [hlen, ntos_ntos, ntol_ntol, ByteMem.shift_shift]
  have hpayload := ipFrame_payload len proto src dest destMac source m
  have hoff : 14 + (20 : BitVec 16).toNat = 34 := rfl
  rw [hoff, hpayload]
  rfl

end

/-! ## Sending a frame -/

section

variable {n : Net} {s : SBuff}

/-- The buffer is handed to the device, and freed if nobody else refers to it. -/
theorem deviceSend_eq (device : NetDevice) (hs : s.addr ∈ n.live) :
    (deviceSend device s n).Total fun n' => n'.sent = n.sent ++ [(device, s)] ∧
      (s.refs ≠ 0 → n'.live = n.live) := by
  have hrefs : (addRef s).refs - 1 = s.refs := BitVec.add_sub_cancel _ _
  unfold deviceSend releaseRef
  rw [hrefs]
  split
  · next hzero =>
      rw [Net.kmemFree, if_pos (by exact hs)]
      exact .ok ⟨rfl, fun h => absurd hzero h⟩
  · exact .ok ⟨rfl, fun _ => rfl⟩

/-- The frame goes from the start of the buffer to its end. -/
structure Framed (s frame : SBuff) (data : ByteMem) : Prop where
  head : frame.head = 0
  totalSize : frame.totalSize = s.totalSize
  data : frame.data = data

theorem Framed.currSize {frame : SBuff} {data : ByteMem} (h : Framed s frame data) :
    frame.currSize = frame.totalSize := by
  have hsize := frame.head_eq
  rw [h.head, Nat.zero_add] at hsize
  exact BitVec.eq_of_toNat_eq hsize

theorem ethernetSend_eq (hs : s.addr ∈ n.live) (hhead : s.head = 14) (proto : BitVec 16)
    (dest : Mac) (device : NetDevice) :
    (ethernetSend s proto dest device n).Total fun n' => (s.refs ≠ 0 → n'.live = n.live) ∧
      ∃ frame, n'.sent = n.sent ++ [(device, frame)] ∧
        Framed s frame (ethernetHeader 0 proto dest device.mac s.data) := by
  have hsize := s.head_eq
  have hpop : (14 : BitVec 16).toNat ≤ s.head := by
    rw [hhead]
    decide
  refine .bind (sbuffPop_total hpop) ?_
  rintro s₁ ⟨haddr, htotal, hhead₁, hrefs, hdata⟩
  have hhead₁ : s₁.head = 0 := by
    rw [hhead₁, hhead]
    rfl
  have hroom : s₁.head + 14 ≤ s₁.totalSize.toNat := by
    rw [htotal, hhead₁]
    omega
  refine .bind ⟨_, SBuff.store_eq hroom _, rfl⟩ ?_
  rintro _ rfl
  refine (deviceSend_eq device (by exact haddr.symm ▸ hs)).mono ?_
  rintro n' ⟨hsent, hlive⟩
  refine ⟨hrefs ▸ hlive, _, hsent, hhead₁, htotal, ?_⟩
  change ethernetHeader s₁.head proto dest device.mac s₁.data = _
  rw [hhead₁, hdata]

/-- When the address is known, the packet is sent in a frame, from the start of the buffer
to its end. -/
theorem ipSend_eq (hs : s.addr ∈ n.live) (hhead : s.head = 34) (proto : BitVec 8)
    {dest : BitVec 32} {device : NetDevice} {mac : Mac}
    (hmac : arpLookup device dest n = .ok (some mac, n)) :
    (ipSend s proto dest device n).Total fun r => r.1 = .ok ∧ ∃ frame len,
      r.2.sent = n.sent ++ [(device, frame)] ∧ len.toNat + 14 = s.totalSize.toNat ∧
        Framed s frame (ipFrame len proto device.ip dest mac device.mac s.data) := by
  have hsize := s.head_eq
  have hpop : (20 : BitVec 16).toNat ≤ s.head := by
    rw [hhead]
    decide
  refine .bind (sbuffPop_total hpop) ?_
  rintro s₁ ⟨haddr, htotal, hhead₁, _, hdata⟩
  have hhead₁ : s₁.head = 14 := by
    rw [hhead₁, hhead]
    rfl
  have hroom : s₁.head + 20 ≤ s₁.totalSize.toNat := by
    rw [htotal, hhead₁]
    omega
  refine .bind ⟨_, SBuff.store_eq hroom _, rfl⟩ ?_
  rintro _ rfl
  refine .bind ⟨_, hmac, rfl⟩ ?_
  rintro _ rfl
  refine .bind (ethernetSend_eq (by exact haddr.symm ▸ hs) (by exact hhead₁) 0x0800 mac device) ?_
  rintro n' ⟨_, frame, hsent, hframe⟩
  refine .ok ⟨rfl, frame, s₁.currSize, hsent, ?_, hframe.head, hframe.totalSize.trans htotal, ?_⟩
  · have hcurr := s₁.head_eq
    rw [hhead₁, htotal] at hcurr
    omega
  · rw [hframe.data]
    change ethernetHeader 0 _ _ _ (ipv4Fields s₁.head s₁.currSize _ _ _ s₁.data) = _
    rw [hhead₁, hdata]
    rfl

/-! ## A payload that is sent -/

/-- What the users of `ip_send` do: `n` bytes are written to a new buffer, and it is sent. -/
def ipTransmit (n : BitVec 16) (payload : ByteMem) (proto : BitVec 8) (dest : BitVec 32)
    (device : NetDevice) (net : Net) : Except Trap (Errno × Net) := do
  let (sb, net) ← ipSbuffAlloc n net
  let sb ← sb.store sb.head n.toNat fun m => m.copy sb.head payload 0 n.toNat
  ipSend sb proto dest device net

theorem slice_copy_self (m payload : ByteMem) (a n : Nat) :
    (m.copy a payload 0 n).slice a n = payload.slice 0 n := by
  have hcopy := ByteMem.slice_copy m payload a 0 0 n
  rw [Nat.zero_add] at hcopy
  exact hcopy

/-- For every payload that fits, sending hands the device one buffer, used from its start
to its end, and every device that receives its bytes calls the function for the protocol
with the payload, its length and the sender's address. The header verifies. -/
theorem ip_round_trip (net : Net) (n : BitVec 16) (hn : n.toNat + 34 ≤ 65535) (payload : ByteMem)
    (proto : BitVec 8) (hproto : proto = 1 ∨ proto = 6) (device : NetDevice) (dest : BitVec 32)
    (mac : Mac) (hmac : arpLookup device dest net = .ok (some mac, net)) :
    ∃ net' frame, ipTransmit n payload proto dest device net = .ok (.ok, net') ∧
      net'.sent = net.sent ++ [(device, frame)] ∧
      frame.head = 0 ∧ frame.currSize = frame.totalSize ∧ frame.totalSize.toNat = n.toNat + 34 ∧
      frame.data.read 0 6 = mac ∧ OnesComplement.Verifies (words frame.data 14 10) ∧
      ∃ packet : ByteMem, packet.slice 0 n.toNat = payload.slice 0 n.toNat ∧
        ∀ (dev : NetDevice) (k : Kernel σ), ethernetPacket dev frame.data k =
          registerDevice dev k.net >>= fun m =>
            if proto = 1 then
              icmpSegment device.ip dev packet n m >>= fun m => .ok { k with net := m }
            else tcpSegment dev packet (n.setWidth 32) device.ip { k with net := m } := by
  have hsend : (ipTransmit n payload proto dest device net).Total fun r => r.1 = .ok ∧
      ∃ frame len m, r.2.sent = net.sent ++ [(device, frame)] ∧
        len.toNat = n.toNat + 20 ∧ frame.totalSize.toNat = n.toNat + 34 ∧ frame.head = 0 ∧
        frame.currSize = frame.totalSize ∧
        frame.data = ipFrame len proto device.ip dest mac device.mac m ∧
        m.slice 34 n.toNat = payload.slice 0 n.toNat := by
    refine .bind (ipSbuffAlloc_total net n (by omega)) ?_
    rintro ⟨sb, net₁⟩ b
    have htotal : sb.totalSize.toNat = n.toNat + 34 := b.totalSize
    have hhead : sb.head = 34 := b.head
    have hroom : sb.head + n.toNat ≤ sb.totalSize.toNat := by omega
    refine .bind ⟨_, SBuff.store_eq hroom _, rfl⟩ ?_
    rintro _ rfl
    have hnet : net₁ = net.kmemAlloc.2 := b.net
    have hknown := arpLookup_eq_some_iff.mp hmac
    have hmac₁ : arpLookup device dest net₁ = .ok (some mac, net₁) := by
      rw [hnet, arpLookup_eq_some_iff]
      exact hknown
    have hsent : net₁.sent = net.sent := by
      rw [hnet]
      rfl
    refine (ipSend_eq (by exact b.mem_live) (by exact hhead) proto hmac₁).mono ?_
    rintro r ⟨hok, frame, len, hr, hlen, hframe⟩
    have htotal' : len.toNat + 14 = sb.totalSize.toNat := hlen
    refine ⟨hok, frame, len, _, hsent ▸ hr, by omega, ?_, hframe.head, hframe.currSize, hframe.data,
      ?_⟩
    · rw [hframe.totalSize]
      exact htotal
    · change (sb.data.copy sb.head payload 0 n.toNat).slice 34 n.toNat = _
      rw [hhead]
      exact slice_copy_self _ _ _ _
  obtain ⟨⟨_, net'⟩, hrun, rfl, frame, len, m, hsent, hlen, htotal, hhead, hcurr, hdata, hslice⟩ :=
    hsend
  refine ⟨net', frame, hrun, hsent, hhead, hcurr, htotal, ?_, ?_, m.shift 34, ?_, fun dev k => ?_⟩
  · rw [hdata, ipFrame_dest]
  · rw [hdata]
    exact ipFrame_verifies _ _ _ _ _ _ _
  · rw [ByteMem.slice_shift, hslice]
  · have hlen₁ : len - 20 = n := by bv_omega
    have hlen₂ : len.setWidth 32 - 20 = n.setWidth 32 := by bv_omega
    rw [hdata, ethernetPacket_ipFrame, hlen₁, hlen₂]
    obtain rfl | rfl := hproto
    · rfl
    · rfl

/-- Three bytes of a TCP segment to a known address. -/
theorem ip_round_trip_run : ∃ (net net' : Net) (frame : SBuff),
    ipTransmit 3 (fun _ => 65) 6 0xC0A80301 ⟨0xC0A80302, 7⟩ net = .ok (.ok, net') ∧
      net'.sent = net.sent ++ [(⟨0xC0A80302, 7⟩, frame)] ∧ frame.totalSize.toNat = 37 ∧
      OnesComplement.Verifies (words frame.data 14 10) := by
  let net : Net := { (Kernel.boot (fun _ _ => 0) ()).net with
    table := ⟨[(0xC0A80301, 5)], by decide⟩ }
  obtain ⟨net', frame, hrun, hsent, _, _, htotal, _, hverifies, _⟩ := ip_round_trip (σ := Unit)
    net 3 (by decide) (fun _ => 65) 6 (Or.inr rfl) ⟨0xC0A80302, 7⟩ 0xC0A80301 5 rfl
  exact ⟨net, net', frame, hrun, hsent, htotal, hverifies⟩

end

end BadOs
