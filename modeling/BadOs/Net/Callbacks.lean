import BadOs.Net.Datagrams
import BadOs.Net.Removal

/-!
# Ports with a callback

The list of ports grows at its end with every call of `udp_listen`, and a datagram is handed to
each callback of its port. The length field of the header counts the payload alone, for the
sender as for the receiver.
-/

namespace BadOs

variable {σ : Type}

/-- The port and the callback of a call of `udp_listen`. -/
def KernelOp.registration : KernelOp σ → Option (BitVec 32 × UdpNotify σ)
  | .udpListen port onRead => some (port, onRead)
  | _ => none

/-- The calls of `udp_listen` in a run. -/
def registrations (ops : List (KernelOp σ)) : List (BitVec 32 × UdpNotify σ) :=
  ops.filterMap KernelOp.registration

/-- A callback gets a datagram, and its answers are sent. -/
def invoke (quad : UdpQuad) (data : ByteMem) (size : BitVec 32) (k : Kernel σ) (cb : UdpNotify σ) :
    Except Trap (Kernel σ) := do
  let (app, calls) := cb k.app quad data size
  let n ← udpCalls calls k.net
  return { k with net := n, app := app }

/-- The datagram in an IPv4 packet. -/
def udpOf (packet : ByteMem) : ByteMem := packet.shift (Ipv4Header.load packet).hdrLen.toNat

/-- The destination port of the datagram in a packet. -/
def destPortOf (packet : ByteMem) : BitVec 16 := ntos ((udpOf packet).read 2 2)

/-- The sender's address and both ports, as the callbacks get them. -/
def quadOf (dev : NetDevice) (packet : ByteMem) : UdpQuad where
  srcAddr := ntol (Ipv4Header.load packet).src
  dstAddr := ntol dev.ip
  srcPort := ntos ((udpOf packet).read 0 2)
  dstPort := destPortOf packet

/-- A packet with a datagram of `len` bytes, its header included. -/
structure UdpPacket (packet : ByteMem) (len : Nat) : Prop where
  proto : (Ipv4Header.load packet).proto = 17
  length : (ntos ((udpOf packet).read 4 2)).toNat = len
  totalLen : (ntos (Ipv4Header.load packet).totalLen).toNat =
    (Ipv4Header.load packet).hdrLen.toNat + len
  header : 8 ≤ len

/-- The callbacks that were registered for a port, in order. -/
def callbacksFor (ops : List (KernelOp σ)) (port : BitVec 16) : List (UdpNotify σ) :=
  ((registrations ops).filter fun r => r.1 == port.setWidth 32).map Prod.snd

/-- The packet is handed to each of its callbacks in turn, with this many bytes of payload. -/
def DeliversTo (ops : List (KernelOp σ)) (dev : NetDevice) (packet : ByteMem) (size : Nat)
    (k : Kernel σ) : Prop :=
  ∃ n, registerDevice dev k.net = .ok n ∧ ipPacket dev packet k =
    (callbacksFor ops (destPortOf packet)).foldlM
      (invoke (quadOf dev packet) ((udpOf packet).shift sizeofUdpHeader) (BitVec.ofNat 32 size))
      { k with net := n }

/-! ## Registration -/

section

variable {k k' : Kernel σ}

/-- Only `udp_listen` changes the list. -/
theorem kernelStep_listeningPorts {op : KernelOp σ} (h : kernelStep k op = .ok k') :
    k'.listeningPorts = k.listeningPorts ++
      (op.registration.map fun r => ⟨r.1.setWidth 16, r.2⟩).toList := by
  cases op with
  | frame dev m =>
      refine Eq.trans ?_ (List.append_nil _).symm
      obtain ⟨g, n, _, _, h⟩ | ⟨_, n, app, _, rfl⟩ := ethernetPacket_cases dev m k h
      · exact (tcpSegment_sameServices h).listeningPorts
      · rfl
  | segment g => exact (tcpSegment_sameServices h).listeningPorts.trans (List.append_nil _).symm
  | tcpListen port accept =>
      cases h
      refine Eq.trans ?_ (List.append_nil _).symm
      simp only [tcpListen]
      split <;> rfl
  | udpListen port onRead =>
      cases h
      rfl
  | tcpSend addr data sz =>
      exact (onStream_sameServices h).listeningPorts.trans (List.append_nil _).symm
  | tcpClose addr => exact (onStream_sameServices h).listeningPorts.trans (List.append_nil _).symm

/-- The list has the calls of the run, in their order. -/
theorem run_listeningPorts {junk : Nat → ByteMem} {app : σ} {ops : List (KernelOp σ)}
    (run : Transition.exec kernelStep (.boot junk app) ops = .ok k) :
    k.listeningPorts = (registrations ops).map fun r => ⟨r.1.setWidth 16, r.2⟩ := by
  induction ops using List.reverseRecOn generalizing k with
  | nil =>
      cases run
      rfl
  | append_singleton ops op ih =>
      obtain ⟨k₀, hrun, hstep⟩ := Transition.exec_concat_eq_ok.mp run
      rw [kernelStep_listeningPorts hstep, ih hrun, registrations, registrations,
        List.filterMap_append, List.map_append]
      cases op <;> rfl

/-- For ports of 16 bits it does not matter that the parameter has 32. -/
theorem filter_listeningPorts {ops : List (KernelOp σ)} (port : BitVec 16)
    (hports : ∀ r ∈ registrations ops, r.1.toNat < 65536) :
    (((registrations ops).map fun r => (⟨r.1.setWidth 16, r.2⟩ : UdpListeningPort σ)).filter
        fun p => p.port == port).map UdpListeningPort.cb = callbacksFor ops port := by
  rw [List.filter_map, List.map_map, callbacksFor]
  refine congrArg _ (List.filter_congr fun r hr => ?_)
  have hlt := hports r hr
  rw [Function.comp_apply, Bool.eq_iff_iff, beq_iff_eq, beq_iff_eq]
  dsimp only
  constructor
  · rintro rfl
    bv_omega
  · rintro h
    rw [h]
    bv_omega

/-! ## Delivery -/

theorem notifyPorts_eq (quad : UdpQuad) (data : ByteMem) (size : BitVec 32)
    (ports : List (UdpListeningPort σ)) (k : Kernel σ) : notifyPorts quad data size ports k =
      (ports.map UdpListeningPort.cb).foldlM (invoke quad data size) k := by
  induction ports generalizing k with
  | nil => rfl
  | cons p ports ih =>
      rw [notifyPorts, List.map_cons, List.foldlM_cons, invoke]
      simp only [bind_assoc, pure_bind]
      exact bind_congr fun n => ih _

/-- The callbacks get the length field of the header as the size. -/
theorem ipPacket_delivers {ops : List (KernelOp σ)} (devices : k.net.Devices)
    (hlist : k.listeningPorts = (registrations ops).map fun r => ⟨r.1.setWidth 16, r.2⟩)
    (hports : ∀ r ∈ registrations ops, r.1.toNat < 65536) (dev : NetDevice) {packet : ByteMem}
    {len : Nat} (h : UdpPacket packet len) : DeliversTo ops dev packet len k := by
  obtain ⟨n, hn, _⟩ := registerDevice_total devices dev
  refine ⟨n, hn, ?_⟩
  have hproto := h.proto
  have hsize : (ntos ((udpOf packet).read 4 2)).setWidth 32 = BitVec.ofNat 32 len := by
    have hlen := h.length
    bv_omega
  dsimp only [ipPacket]
  rw [hn, Except.ok_bind, if_neg (by rw [hproto]; decide), if_neg (by rw [hproto]; decide),
    if_pos hproto]
  change udpNotify dev (udpOf packet) _ k.listeningPorts { k with net := n } = _
  rw [udpNotify_eq, notifyPorts_eq, hlist, hsize, ← filter_listeningPorts _ hports]
  rfl

end

/-! ## Runs -/

/-- A datagram of 192.168.3.1 with four bytes for port 7, whose length field is 12. -/
def datagramPacket : ByteMem := fun i =>
  ([0x45, 0, 0, 32, 0, 0, 0, 0, 64, 17, 0, 0, 192, 168, 3, 1, 192, 168, 3, 2,
    0x13, 0x88, 0, 7, 0, 12, 0, 0, 97, 98, 99, 100][i]? : Option (BitVec 8)).getD 0

theorem datagramPacket_udp : UdpPacket datagramPacket 12 := by
  constructor <;> decide

/-- The callback records the size, and gets the eight bytes of the header on top of the payload. -/
theorem udp_size_counts_header : ¬∀ (junk : Nat → ByteMem) (app : List (BitVec 32))
    (ops : List (KernelOp (List (BitVec 32)))) (k : Kernel (List (BitVec 32))),
    Transition.exec kernelStep (.boot junk app) ops = .ok k →
    (∀ r ∈ registrations ops, r.1.toNat < 65536) →
    ∀ (dev : NetDevice) (packet : ByteMem) (len : Nat),
      UdpPacket packet len → DeliversTo ops dev packet (len - 8) k := by
  intro claim
  have run : Transition.exec kernelStep (.boot (fun _ _ => 0) [])
      [.udpListen 7 fun app _ _ size => (app ++ [size], [])] = .ok _ := rfl
  have hports : ∀ r ∈ registrations
      [(.udpListen 7 fun app _ _ size => (app ++ [size], []) : KernelOp (List (BitVec 32)))],
      r.1.toNat < 65536 := by
    rintro r hr
    cases List.mem_singleton.mp hr
    decide
  obtain ⟨n, hn, hclaim⟩ := claim _ _ _ _ run hports ⟨0xC0A80302, 0⟩ _ 12 datagramPacket_udp
  obtain ⟨n', hn', hcode⟩ := ipPacket_delivers (run_heapSound run).1.devices
    (run_listeningPorts run) hports ⟨0xC0A80302, 0⟩ datagramPacket_udp
  cases hn.symm.trans hn'
  have happ := congrArg (Except.holds · fun k => k.app == [4]) (hclaim.symm.trans hcode)
  cases (show true = false from happ)

/-- In every state of every run, a datagram is handed to each callback that was registered for
its port, in the order of the registrations, with the sender's address, both ports, the start
of the payload, and the length field of the header as the size. -/
theorem udp_delivery (junk : Nat → ByteMem) (app : σ) (ops : List (KernelOp σ)) (k : Kernel σ)
    (run : Transition.exec kernelStep (.boot junk app) ops = .ok k)
    (hports : ∀ r ∈ registrations ops, r.1.toNat < 65536) (dev : NetDevice) (packet : ByteMem)
    (len : Nat) (h : UdpPacket packet len) : DeliversTo ops dev packet len k :=
  ipPacket_delivers (run_heapSound run).1.devices (run_listeningPorts run) hports dev h

/-- Two callbacks for the port of the datagram, and one for another. -/
theorem udp_delivery_two : ∃ k k' : Kernel (List (Nat × UdpQuad × BitVec 32)),
    Transition.exec kernelStep (.boot (fun _ _ => 0) [])
      [.udpListen 7 fun app quad _ size => (app ++ [(1, quad, size)], []),
        .udpListen 8 fun app quad _ size => (app ++ [(2, quad, size)], []),
        .udpListen 7 fun app quad _ size => (app ++ [(3, quad, size)], [])] = .ok k ∧
      ipPacket ⟨0xC0A80302, 0⟩ datagramPacket k = .ok k' ∧
      k'.app = [(1, ⟨0xC0A80301, ntol 0xC0A80302, 5000, 7⟩, 12),
        (3, ⟨0xC0A80301, ntol 0xC0A80302, 5000, 7⟩, 12)] := by
  obtain ⟨n, _, hdeliver⟩ := udp_delivery (fun _ _ => 0) ([] : List (Nat × UdpQuad × BitVec 32))
    [.udpListen 7 fun app quad _ size => (app ++ [(1, quad, size)], []),
      .udpListen 8 fun app quad _ size => (app ++ [(2, quad, size)], []),
      .udpListen 7 fun app quad _ size => (app ++ [(3, quad, size)], [])] _ rfl
    (by simp [registrations, KernelOp.registration]) ⟨0xC0A80302, 0⟩ datagramPacket 12
    datagramPacket_udp
  exact ⟨_, _, rfl, hdeliver.trans rfl, rfl⟩

end BadOs
