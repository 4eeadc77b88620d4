import BadOs.Net.Completion
import BadOs.Net.Encapsulation

/-!
# Datagrams between two hosts

What `udp_send` puts into a frame is what `udp_datagram` hands to the listeners of the
peer, and the echo service sends it back the same way.
-/

namespace BadOs

variable {σ : Type}

/-! ## Receiving -/

/-- The listeners are called one after the other. -/
def notifyPorts (quad : UdpQuad) (data : ByteMem) (size : BitVec 32) :
    List (UdpListeningPort σ) → Kernel σ → Except Trap (Kernel σ)
  | [], k => .ok k
  | p :: ports, k => do
      let (app, calls) := p.cb k.app quad data size
      let n ← udpCalls calls k.net
      notifyPorts quad data size ports { k with net := n, app := app }

/-- The loop over the listening ports calls those of the destination port. -/
theorem udpNotify_eq (dev : NetDevice) (data : ByteMem) (srcIp : BitVec 32)
    (ports : List (UdpListeningPort σ)) (k : Kernel σ) :
    udpNotify dev data srcIp ports k =
      notifyPorts ⟨srcIp, ntol dev.ip, ntos (data.read 0 2), ntos (data.read 2 2)⟩
        (data.shift sizeofUdpHeader) ((ntos (data.read 4 2)).setWidth 32)
        (ports.filter fun p => p.port == ntos (data.read 2 2)) k := by
  induction ports generalizing k with
  | nil => rfl
  | cons p ports ih =>
      rw [udpNotify]
      dsimp only
      by_cases hport : ntos (data.read 2 2) = p.port
      · rw [if_pos hport, List.filter_cons, if_pos (beq_iff_eq.mpr hport.symm)]
        exact bind_congr fun n => ih _
      · rw [if_neg hport, List.filter_cons, if_neg fun h => hport (eq_of_beq h).symm]
        exact ih k

/-- A device that receives the frame calls every listener on the destination port once, with
the ports, the address of the sender, the device's own address in network byte order, and
the payload. -/
def DeliversDatagram (frame : ByteMem) (src : BitVec 32) (srcPort dstPort : BitVec 16)
    (payload : ByteMem) (size : BitVec 32) : Prop :=
  ∀ {σ : Type} (dev : NetDevice) (k : Kernel σ), k.net.Devices →
    ∃ n, registerDevice dev k.net = .ok n ∧ ethernetPacket dev frame k =
      notifyPorts ⟨src, ntol dev.ip, srcPort, dstPort⟩ payload size
        (k.listeningPorts.filter fun p => p.port == dstPort) { k with net := n }

/-- A frame with a UDP header and a payload. -/
theorem deliversDatagram_ipFrame {len : BitVec 16} {src dest : BitVec 32} {destMac source : Mac}
    {m : ByteMem} {srcPort dstPort : BitVec 16} {size : BitVec 32} (hsize : size.toNat ≤ 65493)
    (hsrc : m.read 34 2 = ntos srcPort) (hdst : m.read 36 2 = ntos dstPort)
    (hlen : m.read 38 2 = ntos (size.setWidth 16)) :
    DeliversDatagram (ipFrame len 17 src dest destMac source m) src srcPort dstPort (m.shift 42)
      size := by
  intro σ dev k devices
  obtain ⟨n, hn, _⟩ := registerDevice_total devices dev
  refine ⟨n, hn, ?_⟩
  rw [ethernetPacket_ipFrame, hn]
  change udpNotify dev (m.shift 34) src k.listeningPorts { k with net := n } = _
  rw [udpNotify_eq]
  have hwidth : (size.setWidth 16).setWidth 32 = size := by bv_omega
  simp only [ByteMem.read_shift, ByteMem.shift_shift]
  rw [hsrc, hdst, hlen, ntos_ntos, ntos_ntos, ntos_ntos, hwidth]
  rfl

/-- The device that a packet arrives at is found under its address. -/
theorem registerDevice_resolves {n n' : Net} {dev : NetDevice} (devices : n.Devices)
    (h : registerDevice dev n = .ok n') :
    ipResolveLocal (ntol dev.ip) n' = .ok (some dev) := by
  obtain ⟨map, hmap, h⟩ := Except.bind_eq_ok.mp h
  cases h
  rw [ipResolveLocal, ntol_ntol]
  change mapLookup map dev.ip = _
  rw [devices.ready.mapLookup_mapAdd hmap, if_pos rfl]

/-! ## Sending -/

section

variable {n : Net} (quad : UdpQuad) (data : ByteMem) {size : BitVec 32} {dev : NetDevice}
  {mac : Mac}

/-- The header at `head` reads as it was written, and nothing behind it has changed. -/
theorem udpFields_read (head : Nat) (srcPort dstPort : BitVec 16) (size : BitVec 32)
    (m : ByteMem) :
    (udpFields head srcPort dstPort size m).read head 2 = ntos srcPort ∧
      (udpFields head srcPort dstPort size m).read (head + 2) 2 = ntos dstPort ∧
      (udpFields head srcPort dstPort size m).read (head + 4) 2 = ntos (size.setWidth 16) ∧
      (udpFields head srcPort dstPort size m).shift (head + 8) = m.shift (head + 8) := by
  dsimp only [udpFields]
  refine ⟨?_, ?_, ?_, ?_⟩
  · rw [checksum_read_of_disjoint (by omega)]
    simp (disch := omega) only [ByteMem.read_write_of_disjoint]
    exact ByteMem.read_write_self _ _ _ _
  · rw [checksum_read_of_disjoint (by omega)]
    simp (disch := omega) only [ByteMem.read_write_of_disjoint]
    exact ByteMem.read_write_self _ _ _ _
  · rw [checksum_read_of_disjoint (by omega)]
    exact ByteMem.read_write_self _ _ _ _
  · funext x
    change checksum _ head _ _ (head + 8 + x) = m (head + 8 + x)
    rw [checksum_apply_of_not_mem (by omega)]
    simp (disch := omega) only [ByteMem.write_apply_of_not_mem]

/-- The part of `udp_send` behind `ip_resolve_local`. -/
def udpTransmit (quad : UdpQuad) (size : BitVec 32) (sb : SBuff) (n : Net) :
    Option NetDevice → Except Trap (Errno × Net)
  | none => .ok (.invalid, n)
  | some dev => do
      let sb ← sbuffPop sb sizeofUdpHeader
      let sb ← sb.store sb.head sizeofUdpHeader
        (udpFields sb.head quad.srcPort quad.dstPort size)
      ipSend sb 17 quad.dstAddr dev n

/-- A new buffer is filled before the device is looked up. -/
theorem udpSend_resolve (hsize : size.toNat ≤ 65493) : ∃ sb : SBuff,
    udpSend quad data size n =
        ipResolveLocal quad.srcAddr n >>= udpTransmit quad size sb n.kmemAlloc.2 ∧
      sb.addr ∈ n.kmemAlloc.2.live ∧ sb.head = 42 ∧ sb.totalSize.toNat = 42 + size.toNat ∧
      sb.data.slice 42 size.toNat = data.slice 0 size.toNat := by
  obtain ⟨⟨sb, n₁⟩, halloc, b⟩ := udpSbuffAlloc_total n (Nat.lt_succ_of_le hsize)
  have htotal : sb.totalSize.toNat = size.toNat + 42 := b.totalSize
  have hhead : sb.head = 42 := b.head
  have hroom : sb.head + size.toNat ≤ sb.totalSize.toNat := by omega
  have hnet : n₁ = n.kmemAlloc.2 := b.net
  subst hnet
  refine ⟨{ sb with data := sb.data.copy sb.head data 0 size.toNat }, ?_, b.mem_live, hhead, ?_, ?_⟩
  · unfold udpSend
    rw [halloc, Except.ok_bind]
    dsimp only
    rw [SBuff.store_eq hroom, Except.ok_bind]
    refine bind_congr fun dev => ?_
    cases dev <;> rfl
  · exact htotal.trans (Nat.add_comm _ _)
  · change (sb.data.copy sb.head data 0 size.toNat).slice 42 size.toNat = _
    rw [hhead]
    exact slice_copy_self _ _ _ _

/-- A datagram from an address of this host is handed to IP. -/
theorem udpSend_ipSend (hsize : size.toNat ≤ 65493)
    (hdev : ipResolveLocal quad.srcAddr n = .ok (some dev)) : ∃ sb m,
      udpSend quad data size n = ipSend sb 17 quad.dstAddr dev n.kmemAlloc.2 ∧
        sb.addr ∈ n.kmemAlloc.2.live ∧ sb.head = 34 ∧ sb.totalSize.toNat = 42 + size.toNat ∧
        sb.data = udpFields 34 quad.srcPort quad.dstPort size m ∧
        m.slice 42 size.toNat = data.slice 0 size.toNat := by
  obtain ⟨sb, hsend, hlive, hhead, htotal, hpayload⟩ := udpSend_resolve quad data hsize
  have hpop : (8 : BitVec 16).toNat ≤ sb.head := by
    rw [hhead]
    decide
  obtain ⟨s₁, hs₁, haddr₁, htotal₁, hhead₁, _, hdata₁⟩ := sbuffPop_total hpop
  have hpopped : sbuffPop sb sizeofUdpHeader = .ok s₁ := hs₁
  have hhead₁ : s₁.head = 34 := by
    rw [hhead₁, hhead]
    rfl
  have hroom₁ : s₁.head + 8 ≤ s₁.totalSize.toNat := by
    rw [hhead₁, htotal₁]
    omega
  refine ⟨{ s₁ with data := udpFields s₁.head quad.srcPort quad.dstPort size s₁.data },
    s₁.data, ?_, ?_, hhead₁, ?_, ?_, ?_⟩
  · rw [hsend, hdev, Except.ok_bind, udpTransmit, hpopped, Except.ok_bind, SBuff.store_eq hroom₁]
    rfl
  · exact haddr₁ ▸ hlive
  · exact htotal₁ ▸ htotal
  · change udpFields s₁.head _ _ size s₁.data = _
    rw [hhead₁]
  · rw [hdata₁]
    exact hpayload

/-- To a known address it leaves in one frame. -/
theorem udpSend_eq (hsize : size.toNat ≤ 65493)
    (hdev : ipResolveLocal quad.srcAddr n = .ok (some dev))
    (hmac : n.macOf quad.dstAddr = some mac) :
    (udpSend quad data size n).Total fun r => r.1 = .ok ∧ ∃ frame,
      r.2.sent = n.sent ++ [(dev, frame)] ∧ frame.head = 0 ∧
        frame.totalSize.toNat = 42 + size.toNat ∧
        (frame.data.shift 42).slice 0 size.toNat = data.slice 0 size.toNat ∧
        DeliversDatagram frame.data dev.ip quad.srcPort quad.dstPort (frame.data.shift 42)
          size := by
  obtain ⟨sb, m, hsend, hlive, hhead, htotal, hdata, hpayload⟩ :=
    udpSend_ipSend quad data hsize hdev
  rw [hsend]
  refine (ipSend_eq hlive hhead 17 (arpLookup_eq_some_iff.mpr hmac)).mono ?_
  rintro r ⟨hok, frame, len, hsent, _, hframe⟩
  obtain ⟨hsrc, hdst, hlen, hrest⟩ := udpFields_read 34 quad.srcPort quad.dstPort size m
  have hframe_data := hframe.data
  rw [hdata] at hframe_data
  have hshift : frame.data.shift 42 = m.shift 42 := by
    rw [hframe_data, ← hrest, ← ByteMem.shift_shift _ 34 8, ipFrame_payload, ByteMem.shift_shift]
  refine ⟨hok, frame, hsent, hframe.head, ?_, ?_, ?_⟩
  · rw [hframe.totalSize, htotal]
  · rw [hshift, ByteMem.slice_shift]
    exact hpayload
  · rw [hshift, hframe_data, ← hrest]
    exact deliversDatagram_ipFrame hsize hsrc hdst hlen

/-! ## There and back -/

/-- For every payload that fits and every quad whose source address is one of this host and
whose destination is known: the datagram reaches the listeners of the peer, and the answer
of the echo service leaves through the device that received it and reaches the listeners of
the sender, with the same payload and ports and addresses reversed. -/
theorem udp_echo (net : Net) (quad : UdpQuad) (data : ByteMem) (size : BitVec 32)
    (hsize : size.toNat ≤ 65493) (dev : NetDevice)
    (hdev : ipResolveLocal quad.srcAddr net = .ok (some dev)) (mac : Mac)
    (hmac : arpLookup dev quad.dstAddr net = .ok (some mac, net)) :
    ∃ net' frame payload, udpSend quad data size net = .ok (.ok, net') ∧
      net'.sent = net.sent ++ [(dev, frame)] ∧
      payload.slice 0 size.toNat = data.slice 0 size.toNat ∧
      DeliversDatagram frame.data dev.ip quad.srcPort quad.dstPort payload size ∧
      ∀ (peer : NetDevice) (n n₁ n₂ : Net) (app : Services) (mac' : Mac), n.Devices →
        registerDevice peer n = .ok n₁ → n₁.SameTables n₂ →
        arpLookup peer dev.ip n₂ = .ok (some mac', n₂) →
        ∃ n₃ answer payload',
          udpCalls (udpEchoNotify app ⟨dev.ip, ntol peer.ip, quad.srcPort, quad.dstPort⟩ payload
            size).2 n₂ = .ok n₃ ∧
          n₃.sent = n₂.sent ++ [(peer, answer)] ∧
          payload'.slice 0 size.toNat = data.slice 0 size.toNat ∧
          DeliversDatagram answer.data peer.ip quad.dstPort quad.srcPort payload' size := by
  obtain ⟨⟨_, net'⟩, hrun, rfl, frame, hsent, _, _, hpayload, hdelivers⟩ :=
    udpSend_eq quad data hsize hdev (arpLookup_eq_some_iff.mp hmac)
  refine ⟨net', frame, frame.data.shift 42, hrun, hsent, hpayload, hdelivers, ?_⟩
  intro peer n n₁ n₂ app mac' devices hregister same hmac'
  have hpeer : ipResolveLocal (ntol peer.ip) n₂ = .ok (some peer) := by
    rw [ipResolveLocal, same.ipDevices]
    exact registerDevice_resolves devices hregister
  obtain ⟨⟨_, n₃⟩, hrun', rfl, answer, hsent', _, _, hpayload', hdelivers'⟩ :=
    udpSend_eq ⟨ntol peer.ip, dev.ip, quad.dstPort, quad.srcPort⟩ (frame.data.shift 42) hsize hpeer
      (arpLookup_eq_some_iff.mp hmac')
  refine ⟨n₃, answer, answer.data.shift 42, ?_, hsent', hpayload'.trans hpayload, hdelivers'⟩
  exact Except.bind_eq_ok.mpr ⟨_, hrun', rfl⟩

/-- Three bytes to the echo port of a known peer. -/
theorem udp_echo_run : ∃ (net net' : Net) (frame : SBuff) (payload : ByteMem),
    udpSend ⟨ntol 0xC0A80302, 0xC0A80301, 5000, 7⟩ (fun _ => 65) 3 net = .ok (.ok, net') ∧
      net'.sent = net.sent ++ [(⟨0xC0A80302, 7⟩, frame)] ∧
      payload.slice 0 3 = [65, 65, 65] ∧
      DeliversDatagram frame.data 0xC0A80302 5000 7 payload 3 := by
  have devices : (Kernel.boot (fun _ _ => 0) ()).net.Devices := fun h => by cases h
  obtain ⟨n, hn, _⟩ := registerDevice_total devices ⟨0xC0A80302, 7⟩
  have hdev := registerDevice_resolves devices hn
  let net : Net := { n with table := ⟨[(0xC0A80301, 5)], by decide⟩ }
  obtain ⟨net', frame, payload, hrun, hsent, hpayload, hdelivers, _⟩ :=
    udp_echo net ⟨ntol 0xC0A80302, 0xC0A80301, 5000, 7⟩ (fun _ => 65) 3 (by decide)
      ⟨0xC0A80302, 7⟩ hdev 5 rfl
  exact ⟨net, net', frame, payload, hrun, hsent, hpayload, hdelivers⟩

end

end BadOs
