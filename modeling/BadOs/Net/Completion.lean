import BadOs.Net.Services
import BadOs.Net.Serving

/-!
# Which frames are processed to the end

With the services of the kernel registered, `ethernet_packet` returns on every frame,
with four kinds of exceptions. Two of them end in `panic`: echo requests and echo
datagrams whose length wraps around when the headers are added to it.
-/

namespace BadOs

/-! ## The exceptions -/

/-- An ICMP echo request whose length does not fit into a buffer with the headers. -/
def IcmpOverflow (m : ByteMem) : Prop :=
  let packet := m.shift sizeofEthernetFrame
  let ip := Ipv4Header.load packet
  ntos (m.read 12 2) = 0x0800 ∧ ip.proto = 1 ∧ packet.shift ip.hdrLen.toNat 0 = 8 ∧
    65502 ≤ (ntos ip.totalLen - ip.hdrLen).toNat

/-- A datagram to the echo port whose length does not fit into a buffer with the headers. -/
def UdpOverflow (m : ByteMem) : Prop :=
  let packet := m.shift sizeofEthernetFrame
  let ip := Ipv4Header.load packet
  let datagram := packet.shift ip.hdrLen.toNat
  ntos (m.read 12 2) = 0x0800 ∧ ip.proto = 17 ∧ ntos (datagram.read 2 2) = 7 ∧
    65494 ≤ (ntos (datagram.read 4 2)).toNat

/-- An ARP packet for the device, not a request, when the table is full. -/
def ArpOverflow (dev : NetDevice) (m : ByteMem) (n : Net) : Prop :=
  let packet := m.shift sizeofEthernetFrame
  ntos (m.read 12 2) = 0x0806 ∧ ntol (packet.read 24 4) = dev.ip ∧ ntos (packet.read 6 2) ≠ 1 ∧
    n.table.entries.length = 128

variable {σ : Type}

/-- An acknowledgement frees the stream in `LastAck` and the segment goes on with it, or
the sum in the space check of `buffer_data` wraps around. -/
def ServeFault (g : Segment) (s : Stream σ) : Prop :=
  if g.has TcpFlag.ack = true ∧ s.state = .lastAck then
    g.len ≠ 0 ∨ g.has TcpFlag.psh = true ∨ g.has TcpFlag.fin = true
  else 2 ^ 32 ≤ s.readOffset.toNat + g.len.toNat

/-- The frame holds such a segment for a stream that is there. -/
def TcpFault (dev : NetDevice) (m : ByteMem) (k : Kernel σ) : Prop :=
  ∃ g s, frameSegment dev m = some g ∧ g.opens k = false ∧ g.find k.allStreams = some s ∧
    ServeFault g s

/-! ## Below TCP -/

section

variable {n : Net}

/-- The map of devices is set up, or `ip_packet` will do it. -/
def Net.Devices (n : Net) : Prop := n.ipDevices.data.isSome = true → n.ipDevices.Ready mapIntHash

/-- The map after the first lines of `ip_packet`. -/
theorem Net.Devices.ready (devices : n.Devices) :
    (if n.ipDevices.data.isNone = true then mapInit mapIntHash else n.ipDevices).Ready
      mapIntHash := by
  split
  · exact mapInit_ready _
  · next hsome => exact devices (Option.isSome_iff_ne_none.mpr fun h => hsome (by rw [h]; rfl))

theorem registerDevice_total (devices : n.Devices) (dev : NetDevice) :
    (registerDevice dev n).Total fun n' => ∃ map : MapT NetDevice,
      map.Ready mapIntHash ∧ n' = { n with ipDevices := map } := by
  obtain ⟨map, hmap, hready⟩ := devices.ready.mapAdd_eq dev.ip dev
  exact ⟨_, Except.bind_eq_ok.mpr ⟨map, hmap, rfl⟩, map, hready, rfl⟩

theorem icmpSegment_total (fresh : n.Fresh) (sender : BitVec 32) (dev : NetDevice) (data : ByteMem)
    {len : BitVec 16} (h : ¬(data 0 = 8 ∧ 65502 ≤ len.toNat)) :
    (icmpSegment sender dev data len n).Total n.Grows := by
  dsimp only [icmpSegment]
  split
  · exact .ok (.refl fresh)
  · split
    · next htype =>
      refine .bind (ipSbuffAlloc_total n len
        (Nat.lt_of_not_le fun hlen => h ⟨htype, hlen⟩)) ?_
      rintro ⟨buf, n₁⟩ b
      have htotal : buf.totalSize.toNat = len.toNat + 34 := b.totalSize
      have hhead : buf.head = 34 := b.head
      have hroom : (addRef buf).head + len.toNat ≤ (addRef buf).totalSize.toNat := by
        change buf.head + len.toNat ≤ buf.totalSize.toNat
        omega
      refine .bind (SBuff.store_total hroom _) fun s same => ?_
      have hs : s.addr ∈ n₁.live := same.addr.symm ▸ b.mem_live
      have hrefs : s.refs ≠ 0 := by
        rw [same.refs]
        change buf.refs + 1 ≠ 0
        rw [show buf.refs = 0 from b.refs]
        decide
      refine .bind (ipSend_total (b.fresh fresh) hs (same.head.trans hhead) 1 sender dev) ?_
      rintro ⟨_, n₂⟩ ⟨sends, hlive⟩
      refine (releaseRef_total sends.fresh (hlive hrefs)).mono fun n₃ sends' => ?_
      have haddr : s.addr = buf.addr := same.addr
      exact b.grows fresh (haddr ▸ sends.trans sends')
    · exact .ok (.refl fresh)

theorem icmpSegment_panic (sender : BitVec 32) (dev : NetDevice) {data : ByteMem}
    {len : BitVec 16} (htype : data 0 = 8) (h : 65502 ≤ len.toNat) :
    icmpSegment sender dev data len n = .error (.panic "net: sbuff overflow") := by
  dsimp only [icmpSegment]
  split
  · next hshort =>
    have hshort : len.toNat < 8 := BitVec.lt_def.mp hshort
    omega
  · exact Except.bind_error (ipSbuffAlloc_panic n h)

theorem udpSbuffAlloc_total (n : Net) {size : BitVec 32} (h : size.toNat < 65494) :
    (udpSbuffAlloc size n).Total (NewBuffer n (size.toNat + 42) 42) := by
  have hsum : (size + 8 : BitVec 32).toNat = size.toNat + 8 :=
    BitVec.toNat_add_of_lt (by change _ + 8 < _; omega)
  have hsize : ((size + 8 : BitVec 32).setWidth 16).toNat = size.toNat + 8 := by
    rw [BitVec.toNat_setWidth, hsum]
    omega
  refine .bind (ipSbuffAlloc_total n ((size + 8 : BitVec 32).setWidth 16) (by omega)) fun r b => ?_
  rw [hsize] at b
  exact b.push (by change 34 + 8 ≤ _; omega)

theorem udpSend_total (fresh : n.Fresh) (ready : n.ipDevices.Ready mapIntHash) (quad : UdpQuad)
    (data : ByteMem) {size : BitVec 32} (h : size.toNat < 65494) :
    (udpSend quad data size n).Total fun r => n.Grows r.2 := by
  refine .bind (udpSbuffAlloc_total n h) ?_
  rintro ⟨sb, n₁⟩ b
  have htotal : sb.totalSize.toNat = size.toNat + 42 := b.totalSize
  have hhead : sb.head = 42 := b.head
  have hroom : sb.head + size.toNat ≤ sb.totalSize.toNat := by omega
  refine .bind (SBuff.store_total hroom _) fun s same => ?_
  have hs : s.addr ∈ n₁.live := same.addr.symm ▸ b.mem_live
  have hdevices : n₁.ipDevices = n.ipDevices := by rw [show n₁ = _ from b.net]; rfl
  obtain ⟨found, hfound⟩ := (hdevices ▸ ready).mapLookup_eq (ntol quad.srcAddr)
  refine .bind ⟨found, hfound, rfl⟩ ?_
  rintro _ rfl
  cases found with
  | none =>
      refine .ok ?_
      rw [show n₁ = _ from b.net]
      exact Net.kmemAlloc_grows fresh
  | some dev =>
      have hpop : (8 : BitVec 16).toNat ≤ s.head := by
        rw [same.head, hhead]
        decide
      refine .bind (sbuffPop_total hpop) ?_
      rintro s₁ ⟨haddr₁, htotal₁, hhead₁, _, _⟩
      have hhead₁ : s₁.head = 34 := by
        rw [hhead₁, same.head, hhead]
        rfl
      have hroom₁ : s₁.head + 8 ≤ s₁.totalSize.toNat := by
        rw [hhead₁, htotal₁, same.totalSize]
        omega
      refine .bind (SBuff.store_total hroom₁ _) fun s₂ same₂ => ?_
      have haddr : s₂.addr = sb.addr := (same₂.addr.trans haddr₁).trans same.addr
      refine (ipSend_total (b.fresh fresh) (haddr.symm ▸ b.mem_live) (same₂.head.trans hhead₁) 17
        quad.dstAddr dev).mono fun r h => ?_
      exact b.grows fresh (haddr ▸ h.1)

theorem udpSend_panic (quad : UdpQuad) (data : ByteMem) {size : BitVec 32}
    (h : 65494 ≤ size.toNat) (hlt : size.toNat < 65536) :
    udpSend quad data size n = .error (.panic "net: sbuff overflow") := by
  have hsum : (size + 8 : BitVec 32).toNat = size.toNat + 8 :=
    BitVec.toNat_add_of_lt (by change _ + 8 < _; omega)
  have hsize : ((size + 8 : BitVec 32).setWidth 16).toNat = (size.toNat + 8) % 65536 := by
    rw [BitVec.toNat_setWidth, hsum]
  have halloc : udpSbuffAlloc size n = .error (.panic "net: sbuff overflow") := by
    by_cases hwrap : size.toNat + 8 < 65536
    · exact Except.bind_error (ipSbuffAlloc_panic n (by
        change 65502 ≤ ((size + 8 : BitVec 32).setWidth 16).toNat
        omega))
    · refine Except.Total.bind_error
        (ipSbuffAlloc_total n ((size + 8 : BitVec 32).setWidth 16) (by omega)) fun r b => ?_
      exact b.push_panic (by change _ < 34 + 8; omega)
  exact Except.bind_error halloc

/-- A datagram of 65536 bytes and more is larger than its buffer. -/
theorem udpSend_oversized (quad : UdpQuad) (data : ByteMem) {size : BitVec 32}
    (h : 65494 ≤ size.toNat) : (udpSend quad data size n).Post fun _ => False := by
  by_cases hlt : size.toNat < 65536
  · rw [udpSend_panic quad data h hlt]
    exact .error
  · refine .bind_any fun r => .bind (Q := fun _ => False) ?_ fun _ => False.elim
    have hroom : ¬r.1.head + size.toNat ≤ r.1.totalSize.toNat := by
      have htotal := r.1.totalSize.isLt
      omega
    rw [SBuff.store, if_neg hroom]
    exact .error

theorem udpCalls_total (fresh : n.Fresh) (ready : n.ipDevices.Ready mapIntHash)
    {calls : List UdpCall} (h : ∀ c ∈ calls, c.size.toNat < 65494) :
    (udpCalls calls n).Total n.Grows := by
  induction calls generalizing n with
  | nil => exact .ok (.refl fresh)
  | cons c calls ih =>
      obtain ⟨hc, hcalls⟩ := List.forall_mem_cons.mp h
      refine .bind (udpSend_total fresh ready c.quad c.data hc) ?_
      rintro ⟨_, n₁⟩ grows
      exact (ih grows.fresh (grows.same.ipDevices ▸ ready) hcalls).mono fun n₂ grows' =>
        grows.trans grows'

/-- An ARP packet is answered, stored or dropped, if the table has room. -/
theorem arpPacket_total (fresh : n.Fresh) (dev : NetDevice) (data : ByteMem)
    (h : ¬(ntol (data.read 24 4) = dev.ip ∧ ntos (data.read 6 2) ≠ 1 ∧
      n.table.entries.length = 128)) :
    (arpPacket dev data n).Total fun n' =>
      n'.Fresh ∧ n'.ipDevices = n.ipDevices ∧ ∀ a ∈ n.live, a ∈ n'.live := by
  dsimp only [arpPacket]
  split
  · exact .ok ⟨fresh, rfl, fun _ ha => ha⟩
  · next htarget =>
    split
    · exact (reply_total fresh dev _ _ false).mono fun n' grows =>
        ⟨grows.fresh, grows.same.ipDevices, grows.live⟩
    · next hoperation =>
      have hroom : n.table.entries.length < 128 := by
        refine Nat.lt_of_le_of_ne n.table.bound fun hfull => h ⟨?_, hoperation, hfull⟩
        exact Classical.not_not.mp htarget
      unfold arpStore
      rw [dif_pos hroom]
      exact .ok ⟨fresh, rfl, fun _ ha => ha⟩

theorem arpPacket_outOfBounds (dev : NetDevice) {data : ByteMem}
    (htarget : ntol (data.read 24 4) = dev.ip) (hoperation : ntos (data.read 6 2) ≠ 1)
    (hfull : n.table.entries.length = 128) : arpPacket dev data n = .error .outOfBounds := by
  dsimp only [arpPacket]
  rw [if_neg (fun h => h htarget), if_neg hoperation, arpStore, dif_neg (by omega)]

end

/-! ## TCP -/

/-- The read function is one of the services'. -/
def Stream.HasService (s : Stream Services) : Prop := s.readFn = tcpEchoRead ∨ s.readFn = httpRead

/-- The response fits: 256 bytes of the file and the header. -/
theorem httpResponse_fits (heap body : ByteMem) {count : BitVec 32} (h : count.toNat ≤ 256) :
    ((httpResponse heap body count).2.setWidth 16).toNat < 65482 := by
  have hheader : (BitVec.ofNat 32 (httpHeader.length + 4 * 2)).toNat < 1000 := by decide
  change ((count + BitVec.ofNat 32 (httpHeader.length + 4 * 2)).setWidth 16).toNat < _
  rw [BitVec.toNat_setWidth, BitVec.toNat_add_of_lt (by omega)]
  omega

theorem Stream.HasService.fits {s : Stream Services} (service : s.HasService) (app : Services)
    (heap data : ByteMem) {sz : BitVec 32} (h : sz.toNat ≤ 2048) :
    ∀ c ∈ (s.readFn app heap data sz).2, c.Fits := by
  obtain hfn | hfn := service <;> rw [hfn]
  · refine List.forall_mem_singleton.mpr ?_
    change (sz.setWidth 16).toNat < 65482
    rw [BitVec.toNat_setWidth]
    omega
  · dsimp only [httpRead]
    split
    · exact fun _ hc => nomatch hc
    · next hcount =>
      have hsign : (app.file app.reads).count.slt 0 = (app.file app.reads).count.msb :=
        BitVec.slt_zero_eq_msb
      have hmsb : (app.file app.reads).count.msb = false :=
        Bool.eq_false_iff.mpr (hsign ▸ hcount)
      refine List.forall_mem_cons.mpr ⟨?_, List.forall_mem_singleton.mpr trivial⟩
      exact httpResponse_fits heap _ ((app.file app.reads).count_le hmsb)

section

variable {k : Kernel Services} {s : Stream Services} {g : Segment}

theorem pushit_total (fresh : k.net.Fresh) (service : s.HasService)
    (hoffset : s.readOffset.toNat ≤ 2048) :
    (pushit (some s) k).Total fun r => k.net.Grows r.2.net :=
  pushit_fits fresh (service.fits k.app (k.net.junk k.net.next) s.readBuf hoffset)

/-- In a buffer of the right size only the wrapped sum lets too much through. -/
theorem serveFault_iff (ok : s.BufferOk) :
    ServeFault g s ↔ g.Reuses s ∨
      ¬(g.has TcpFlag.ack = true ∧ s.state = .lastAck) ∧ Overrun s g.len := by
  rw [ServeFault, Segment.Reuses, ok.overrun_iff]
  by_cases hlast : g.has TcpFlag.ack = true ∧ s.state = .lastAck
  · rw [if_pos hlast, and_iff_right hlast]
    exact ⟨.inl, fun h => h.resolve_right fun hover => hover.1 hlast⟩
  · rw [if_neg hlast, and_iff_right hlast]
    exact ⟨.inr, fun h => h.resolve_left fun hreuse => hlast hreuse.1⟩

/-- What the services need of the streams and the listeners. -/
structure Kernel.Serviced (k : Kernel Services) : Prop where
  streams : ∀ s ∈ k.allStreams, s.BufferOk ∧ s.HasService
  listeners : ∀ l ∈ k.allListeners, l.accept = tcpEchoAccept ∨ l.accept = httpAccept

theorem Kernel.Serviced.opened (h : k.Serviced) {l : ListenState Services}
    (hl : l ∈ k.allListeners) (addr : Nat) (junk : ByteMem) (dev : NetDevice) (hdr : TcpHdr)
    (srcIp : BitVec 32) (app : Services) :
    (openedStream addr junk dev hdr srcIp (l.accept app).2).BufferOk ∧
      (openedStream addr junk dev hdr srcIp (l.accept app).2).HasService := by
  refine ⟨⟨rfl, Nat.zero_le 2048⟩, ?_⟩
  obtain haccept | haccept := h.listeners l hl <;> rw [haccept]
  · exact Or.inl rfl
  · exact Or.inr rfl

theorem tcpSegment_total (wf : k.Wf) (fresh : k.net.Fresh) (live : k.LiveStreams)
    (serviced : k.Serviced)
    (h : ¬∃ s, g.opens k = false ∧ g.find k.allStreams = some s ∧ ServeFault g s) :
    (tcpSegment g.dev g.data g.sz g.srcIp k).Total (k.HeapOk ·) := by
  refine (tcpSegment_within (E := fun _ => False) wf fresh live
    fun s k₁ hserves hopened => ?_).total
  have hstream : (s.BufferOk ∧ s.HasService) ∧ ¬ServeFault g s := by
    have hfind := hserves.2
    cases hopened with
    | kept n hopens _ =>
        exact ⟨serviced.streams s (List.mem_of_find?_eq_some hfind), fun hfault =>
          h ⟨s, hopens, hfind, hfault⟩⟩
    | opened l junk n hsyn hl _ _ =>
        cases (find_opened g _ _ _ _).symm.trans hfind
        refine ⟨serviced.opened (List.mem_of_find?_eq_some hl) _ _ _ _ _ _, ?_⟩
        rw [ServeFault, if_neg fun hlast => nomatch hlast.2]
        change ¬2 ^ 32 ≤ 0 + g.len.toNat
        have hlt := g.len.isLt
        omega
  obtain ⟨⟨ok, service⟩, hnot⟩ := hstream
  rw [serveFault_iff ok, not_or, not_and] at hnot
  refine ⟨hnot.1, hnot.2, fun fresh₁ hlast _ => ?_⟩
  have hroom : copies s g.len → s.readOffset.toNat + g.len.toNat ≤ s.readMax.toNat := fun hcopies =>
    Nat.le_of_not_lt fun hover => hnot.2 hlast ⟨hcopies, hover⟩
  have service' : (g.receive s).HasService := by
    rw [Stream.HasService, (g.receive_sameConn s).readFn]
    exact service
  exact .of_total (pushit_total fresh₁ service' (bufferOk_invariant.receive ok hroom).readOffset)

/-- A fault is no call of `panic`. -/
theorem tcpSegment_fault (fresh : k.net.Fresh) (live : k.LiveStreams)
    (serviced : k.Serviced) (hopens : g.opens k = false) (hfind : g.find k.allStreams = some s)
    (hfault : ServeFault g s) :
    tcpSegment g.dev g.data g.sz g.srcIp k = .error .useAfterFree ∨
      tcpSegment g.dev g.data g.sz g.srcIp k = .error .outOfBounds := by
  have hs : s ∈ k.allStreams := List.mem_of_find?_eq_some hfind
  obtain ⟨n, hserves, _⟩ := serves_of_not_opens fresh hopens hfind
  have hfaults : g.Faults s { k with net := n } := by
    obtain hreuse | ⟨hlast, hover⟩ := (serveFault_iff (serviced.streams s hs).1).mp hfault
    · exact .inl hreuse
    · exact .inr ⟨hlast, .inl hover⟩
  exact (segment_fault fresh live hserves hfaults).imp_left And.left

/-! ## The kernel with its services -/

/-- What holds of the kernel between two frames. -/
structure Kernel.Sound (k : Kernel Services) : Prop where
  wf : k.Wf
  fresh : k.net.Fresh
  live : k.LiveStreams
  serviced : k.Serviced
  ports : k.listeningPorts = [⟨7, udpEchoNotify⟩]
  devices : k.net.Devices

theorem bootServices_sound (junk : Nat → ByteMem) (file : Nat → FileRead) :
    (bootServices junk file).Sound := by
  have noStream : ∀ {P : Stream Services → Prop}, ∀ s ∈ (bootServices junk file).allStreams, P s :=
    fun _ h => nomatch h
  have fresh : (Kernel.boot junk (⟨file, 0⟩ : Services)).net.Fresh := fun _ h => nomatch h
  have fresh₁ := (Net.kmemAlloc_grows (Net.kmemAlloc_grows fresh).fresh).fresh
  have fresh₂ := (Net.kmemAlloc_grows (Net.kmemAlloc_grows fresh₁).fresh).fresh
  refine ⟨⟨List.nodup_nil, noStream⟩, fresh₂, noStream, ⟨noStream, ?_⟩, rfl, (nomatch ·)⟩
  exact List.forall_mem_cons.mpr ⟨Or.inl rfl, List.forall_mem_singleton.mpr (Or.inr rfl)⟩

/-- The frame returns to the caller unless it is one of the exceptions. -/
def Passes (dev : NetDevice) (m : ByteMem) (k : Kernel Services) : Prop :=
  ¬IcmpOverflow m ∧ ¬UdpOverflow m ∧ ¬ArpOverflow dev m k.net ∧ ¬TcpFault dev m k

theorem service_invariant : StreamInvariant fun s => s.BufferOk ∧ s.HasService where
  ack s hdr h := ⟨bufferOk_invariant.ack s hdr h.1, h.2⟩
  data s hdr data len h hroom := ⟨bufferOk_invariant.data s hdr data len h.1 hroom, h.2⟩
  call s c h := ⟨bufferOk_invariant.call s c h.1, by cases c <;> exact h.2⟩
  push s h := ⟨bufferOk_invariant.push s h.1, h.2⟩
  last s h := ⟨bufferOk_invariant.last s h.1, h.2⟩

namespace Kernel.Sound

/-- A call that leaves TCP alone. -/
theorem grows (h : k.Sound) {n : Net} (fresh : n.Fresh) (devices : n.Devices)
    (next : k.net.next ≤ n.next) (live : ∀ a ∈ k.net.live, a ∈ n.live) (app : Services) :
    Kernel.Sound { k with net := n, app := app } where
  wf := ⟨h.wf.unique, fun s hs => (h.wf.below s hs).trans_le next⟩
  fresh := fresh
  live s hs := live _ (h.live s hs)
  serviced := ⟨h.serviced.streams, h.serviced.listeners⟩
  ports := h.ports
  devices := devices

theorem segment (h : k.Sound) {k' : Kernel Services} (heap : k.HeapOk k')
    (hseg : tcpSegment g.dev g.data g.sz g.srcIp k = .ok k') : k'.Sound := by
  have services := tcpSegment_sameServices hseg
  refine ⟨h.wf.segment hseg, heap.fresh, heap.live, ⟨?_, ?_⟩, ?_, ?_⟩
  · have hstep : kernelStep k (.segment g) = .ok k' := hseg
    refine service_invariant.step h.serviced.streams ?_ hstep
    exact fun l hl addr junk dev hdr srcIp => h.serviced.opened hl addr junk dev hdr srcIp k.app
  · exact services.allListeners.symm ▸ h.serviced.listeners
  · exact services.listeningPorts.trans h.ports
  · rw [Net.Devices, heap.same.ipDevices]
    exact h.devices

theorem segment_total (h : k.Sound) (g : Segment)
    (hno : ¬∃ s, g.opens k = false ∧ g.find k.allStreams = some s ∧ ServeFault g s) :
    (tcpSegment g.dev g.data g.sz g.srcIp k).Total (·.Sound) := by
  obtain ⟨k', hk', heap⟩ := tcpSegment_total h.wf h.fresh h.live h.serviced hno
  exact ⟨k', hk', h.segment heap hk'⟩

/-- The one listening port of UDP. -/
theorem udp_total (h : k.Sound) (ready : k.net.ipDevices.Ready mapIntHash) (dev : NetDevice)
    {data : ByteMem} (srcIp : BitVec 32)
    (hlen : ¬(ntos (data.read 2 2) = 7 ∧ 65494 ≤ (ntos (data.read 4 2)).toNat)) :
    (udpDatagram dev data srcIp k).Total (·.Sound) := by
  rw [udpDatagram, h.ports]
  dsimp only [udpNotify]
  split
  · next hport =>
    refine .bind (udpCalls_total h.fresh ready (List.forall_mem_singleton.mpr ?_))
      fun n grows => .ok (h.grows grows.fresh ?_ grows.same.next grows.live _)
    · change (BitVec.setWidth 32 (ntos (data.read 4 2))).toNat < _
      rw [BitVec.toNat_setWidth_of_le (by decide)]
      exact Nat.lt_of_not_le fun hle => hlen ⟨hport, hle⟩
    · exact fun _ => grows.same.ipDevices.symm ▸ ready
  · exact .ok h

theorem udp_panic (h : k.Sound) (dev : NetDevice) {data : ByteMem} (srcIp : BitVec 32)
    (hport : ntos (data.read 2 2) = 7) (hlen : 65494 ≤ (ntos (data.read 4 2)).toNat) :
    udpDatagram dev data srcIp k = .error (.panic "net: sbuff overflow") := by
  rw [udpDatagram, h.ports]
  dsimp only [udpNotify]
  rw [if_pos hport]
  refine Except.bind_error (Except.bind_error (udpSend_panic _ _ ?_ ?_)) <;>
    rw [BitVec.toNat_setWidth_of_le (by decide)]
  · exact hlen
  · exact (ntos (data.read 4 2)).isLt

/-- The first step of `ip_packet`. -/
theorem register (h : k.Sound) (dev : NetDevice) :
    (registerDevice dev k.net).Total fun n => n.ipDevices.Ready mapIntHash ∧
      Kernel.Sound { k with net := n } := by
  refine (registerDevice_total h.devices dev).mono ?_
  rintro _ ⟨map, ready, rfl⟩
  exact ⟨ready, h.grows (n := { k.net with ipDevices := map }) h.fresh (fun _ => ready)
    (Nat.le_refl _) (fun _ ha => ha) k.app⟩

theorem frame_total (h : k.Sound) {dev : NetDevice} {m : ByteMem} (passes : Passes dev m k) :
    (ethernetPacket dev m k).Total (·.Sound) := by
  obtain ⟨hicmp, hudp, harp, htcp⟩ := passes
  dsimp only [ethernetPacket]
  split
  · next htype =>
    refine .bind (h.register dev) ?_
    rintro n ⟨ready, h₁⟩
    split
    · next hproto =>
      refine .bind (icmpSegment_total h₁.fresh _ dev _ fun hlen => hicmp
        ⟨htype, hproto, hlen⟩) fun n₁ grows => .ok (h₁.grows grows.fresh ?_ grows.same.next
          grows.live k.app)
      exact fun _ => grows.same.ipDevices.symm ▸ ready
    · split
      · next hproto =>
        have hg : frameSegment dev m = some ⟨dev, _, _, _⟩ := if_pos ⟨htype, hproto⟩
        exact h₁.segment_total ⟨dev, _, _, _⟩ fun ⟨s, hopens, hfind, hfault⟩ =>
          htcp ⟨_, s, hg, hopens, hfind, hfault⟩
      · split
        · next hproto =>
          exact h₁.udp_total ready dev _ fun hlen => hudp ⟨htype, hproto, hlen⟩
        · exact .ok h₁
  · split
    · next htype =>
      refine .bind ((arpPacket_total h.fresh dev _ fun hfull => harp ⟨htype, hfull⟩).and_post
        (arpPacket_next dev _ k.net)) ?_
      rintro n ⟨⟨fresh, hdevices, live⟩, next⟩
      refine .ok (h.grows fresh ?_ next live k.app)
      rw [Net.Devices, hdevices]
      exact h.devices
    · exact .ok h

/-- The two exceptions that end in `panic`. -/
theorem frame_panic (h : k.Sound) {dev : NetDevice} {m : ByteMem}
    (hover : IcmpOverflow m ∨ UdpOverflow m) :
    ethernetPacket dev m k = .error (.panic "net: sbuff overflow") := by
  have hpacket : ∀ {x}, ipPacket dev (m.shift sizeofEthernetFrame) k = x →
      ntos (m.read 12 2) = 0x0800 → ethernetPacket dev m k = x := by
    rintro x hx htype
    dsimp only [ethernetPacket]
    rw [if_pos htype, hx]
  obtain ⟨htype, hproto, hecho, hlen⟩ | ⟨htype, hproto, hport, hlen⟩ := hover <;>
    refine hpacket (Except.Total.bind_error (h.register dev) ?_) htype <;>
    rintro n ⟨_, h₁⟩ <;> dsimp only
  · rw [if_pos hproto]
    exact Except.bind_error (icmpSegment_panic _ dev hecho hlen)
  · rw [if_neg (by rw [hproto]; decide), if_neg (by rw [hproto]; decide), if_pos hproto]
    exact h₁.udp_panic dev _ hport hlen

/-- The other two are accesses that the language leaves undefined. -/
theorem frame_fault (h : k.Sound) {dev : NetDevice} {m : ByteMem}
    (hfault : ArpOverflow dev m k.net ∨ TcpFault dev m k) :
    ethernetPacket dev m k = .error .useAfterFree ∨
      ethernetPacket dev m k = .error .outOfBounds := by
  obtain ⟨htype, htarget, hoperation, hfull⟩ | ⟨g, s, hg, hopens, hfind, hserve⟩ := hfault
  · refine Or.inr ?_
    dsimp only [ethernetPacket]
    rw [if_neg (by rw [htype]; decide), if_pos htype]
    exact Except.bind_error (arpPacket_outOfBounds dev htarget hoperation hfull)
  · obtain ⟨n, hn, _, h₁⟩ := h.register dev
    rw [ethernetPacket_of_segment hg, hn]
    exact tcpSegment_fault (k := { k with net := n }) h₁.fresh h₁.live h₁.serviced hopens hfind
      hserve

/-- A frame returns exactly when it is none of the exceptions, and two of these end in
`panic`. -/
theorem frame_iff (h : k.Sound) (dev : NetDevice) (m : ByteMem) :
    ((∃ k', ethernetPacket dev m k = .ok k') ↔ Passes dev m k) ∧
      ((∃ why, ethernetPacket dev m k = .error (.panic why)) ↔
        IcmpOverflow m ∨ UdpOverflow m) := by
  by_cases hover : IcmpOverflow m ∨ UdpOverflow m
  · have hpanic : ethernetPacket dev m k = _ := h.frame_panic hover
    refine ⟨⟨fun ⟨_, hk'⟩ => (nomatch hpanic.symm.trans hk'), fun passes => ?_⟩,
      fun _ => hover, fun _ => ⟨_, hpanic⟩⟩
    exact absurd hover (not_or.mpr ⟨passes.1, passes.2.1⟩)
  · obtain ⟨hicmp, hudp⟩ := not_or.mp hover
    by_cases hfault : ArpOverflow dev m k.net ∨ TcpFault dev m k
    · refine ⟨⟨fun ⟨_, hk'⟩ => ?_, fun passes => ?_⟩, fun ⟨_, hpanic⟩ => ?_, fun h =>
        absurd h hover⟩
      · obtain herror | herror := h.frame_fault hfault <;> exact nomatch herror.symm.trans hk'
      · exact absurd hfault (not_or.mpr ⟨passes.2.2.1, passes.2.2.2⟩)
      · obtain herror | herror := h.frame_fault hfault <;> exact nomatch herror.symm.trans hpanic
    · obtain ⟨harp, htcp⟩ := not_or.mp hfault
      have passes : Passes dev m k := ⟨hicmp, hudp, harp, htcp⟩
      obtain ⟨k', hk', _⟩ := h.frame_total passes
      exact ⟨⟨fun _ => passes, fun _ => ⟨k', hk'⟩⟩, fun ⟨_, hpanic⟩ =>
        (nomatch hk'.symm.trans hpanic), fun h => absurd h hover⟩

end Kernel.Sound

/-- A frame that a device received. -/
def receive (k : Kernel Services) (f : NetDevice × ByteMem) : Except Trap (Kernel Services) :=
  ethernetPacket f.1 f.2 k

/-- The state between two frames. -/
theorem run_sound {junk : Nat → ByteMem} {file : Nat → FileRead}
    {frames : List (NetDevice × ByteMem)}
    (run : Transition.exec receive (bootServices junk file) frames = .ok k) : k.Sound := by
  have hrun : Transition.Run receive (fun _ _ => True) (bootServices junk file) frames k :=
    .of_exec run fun _ _ => trivial
  refine hrun.invariant (fun k f k' h _ hstep => ?_) (bootServices_sound junk file)
  obtain ⟨_, hk', h'⟩ := h.frame_total ((h.frame_iff f.1 f.2).1.mp ⟨k', hstep⟩)
  cases hk'.symm.trans hstep
  exact h'

end

/-- An echo request whose IP header gives this length. -/
theorem ping_panics : ¬∀ (junk : Nat → ByteMem) (file : Nat → FileRead)
    (frames : List (NetDevice × ByteMem)) (k : Kernel Services),
    Transition.exec receive (bootServices junk file) frames = .ok k →
      ∀ (dev : NetDevice) (m : ByteMem) (why : String),
        ethernetPacket dev m k ≠ .error (.panic why) := by
  intro claim
  have sound := bootServices_sound (fun _ _ => 0) fun _ => ⟨0, fun _ => 0, by decide⟩
  have hover : IcmpOverflow (pingFrame 0) := by
    unfold IcmpOverflow
    decide +kernel
  exact claim _ _ [] _ rfl ⟨0xC0A80302, 0⟩ _ _ (sound.frame_panic (Or.inl hover))

/-- In every state that the kernel reaches with its services on any frames, the next frame
is processed to the end exactly when it is none of the four exceptions, and `panic` is
reached exactly in two of them. -/
theorem ethernetPacket_completes_iff (junk : Nat → ByteMem) (file : Nat → FileRead)
    (frames : List (NetDevice × ByteMem)) (k : Kernel Services)
    (run : Transition.exec receive (bootServices junk file) frames = .ok k)
    (dev : NetDevice) (m : ByteMem) :
    ((∃ k', ethernetPacket dev m k = .ok k') ↔
        ¬IcmpOverflow m ∧ ¬UdpOverflow m ∧ ¬ArpOverflow dev m k.net ∧ ¬TcpFault dev m k) ∧
      ((∃ why, ethernetPacket dev m k = .error (.panic why)) ↔
        IcmpOverflow m ∨ UdpOverflow m) :=
  (run_sound run).frame_iff dev m

/-- Two echo requests, the second one longer. -/
theorem ethernetPacket_completes_run : ∃ k : Kernel Services,
    Transition.exec receive (bootServices (fun _ _ => 0) fun _ => ⟨0, fun _ => 0, by decide⟩)
      [(⟨0xC0A80302, 0⟩, pingFrame 28)] = .ok k ∧
      ∃ k', ethernetPacket ⟨0xC0A80302, 0⟩ (pingFrame 84) k = .ok k' := by
  have hrun : Transition.check receive (fun _ _ => True) (fun _ => true)
      (bootServices (fun _ _ => 0) fun _ => ⟨0, fun _ => 0, by decide⟩)
      [(⟨0xC0A80302, 0⟩, pingFrame 28)] = true := by
    decide +kernel
  obtain ⟨k, run, _⟩ := Transition.Run.of_check hrun
  refine ⟨k, run.exec_eq, (ethernetPacket_completes_iff _ _ _ k run.exec_eq _ _).1.mpr
    ⟨?_, ?_, ?_, ?_⟩⟩
  · unfold IcmpOverflow
    decide +kernel
  · unfold UdpOverflow
    decide +kernel
  · exact fun h => absurd h.1 (by decide +kernel)
  · rintro ⟨g, s, hg, _⟩
    dsimp only [frameSegment] at hg
    rw [if_neg (by decide +kernel)] at hg
    exact nomatch hg

end BadOs
