import BadOs.Net.Transmission

/-!
# Packets that cannot be sent

A new buffer has no references. `device->send` takes one and gives it up, which frees the
buffer. A packet that does not get that far is freed only if its sender took a reference, too;
`icmp_segment` is the only one that does. It loses an object all the same: the ARP request for
the missing address leaves the `PendingSend` of the driver behind.
-/

namespace BadOs

variable {σ : Type}

/-- A call that builds a packet. -/
inductive SendCall (σ : Type) where
  | tcpSend (s : Stream σ) (data : ByteMem) (sz : BitVec 16)
  | tcpClose (s : Stream σ)
  | connected (dev : NetDevice) (localPort remotePort : BitVec 16) (remoteAddr ackSeq : BitVec 32)
      (fn : TcpReadFn σ)
  | resetStream (dev : NetDevice) (hdr : TcpHdr) (srcIp : BitVec 32)
  | fin (dev : NetDevice) (s : Stream σ)
  | udpSend (quad : UdpQuad) (data : ByteMem) (size : BitVec 32)
  | icmpSegment (sender : BitVec 32) (dev : NetDevice) (data : ByteMem) (len : BitVec 16)

namespace SendCall

/-- The state when the call returns, with its frames transmitted. -/
def run : SendCall σ → Kernel σ → Except Trap (Kernel σ)
  | .tcpSend s data sz, k => do
      let (s, k) ← BadOs.tcpSend s data sz k
      return k.putStream (some s)
  | .tcpClose s, k => do
      let (s, k) ← BadOs.tcpClose s k
      return k.putStream (some s)
  | .connected dev localPort remotePort remoteAddr ackSeq fn, k =>
      BadOs.connected dev localPort remotePort remoteAddr ackSeq fn k
  | .resetStream dev hdr srcIp, k => BadOs.resetStream dev hdr srcIp k
  | .fin dev s, k => do
      let (p, k) ← BadOs.fin dev (some s) k
      return k.putStream p
  | .udpSend quad data size, k => do
      let (_, n) ← BadOs.udpSend quad data size k.net
      return { k with net := n }
  | .icmpSegment sender dev data len, k => do
      let n ← BadOs.icmpSegment sender dev data len k.net
      return { k with net := n }

/-- The stream that the call works on. -/
def stream? : SendCall σ → Option (Stream σ)
  | .tcpSend s _ _ => some s
  | .tcpClose s => some s
  | .fin _ s => some s
  | _ => none

/-- The call builds a packet, and no address is known for it or, for a datagram, no device. -/
def Undeliverable (n : Net) : SendCall σ → Prop
  | .tcpSend s _ _ => n.macOf s.remoteAddr = none
  | .tcpClose s => n.macOf s.remoteAddr = none
  | .connected _ _ _ remoteAddr _ _ => n.macOf remoteAddr = none
  | .resetStream _ _ srcIp => n.macOf srcIp = none
  | .fin _ s => (s.state = .finWait2 ∨ s.state = .established) ∧ n.macOf s.remoteAddr = none
  | .udpSend quad _ _ =>
      ipResolveLocal quad.srcAddr n = .ok none ∨ n.macOf quad.dstAddr = none
  | .icmpSegment sender _ data len => 8 ≤ len.toNat ∧ data 0 = 8 ∧ n.macOf sender = none

/-- The sender holds a reference to the buffer while it sends it. -/
def takesReference : SendCall σ → Bool
  | .icmpSegment .. => true
  | _ => false

end SendCall

/-- The network layer loses nothing. The buffer that was allocated first was freed again; what is
left of the rest was there before or is the record of a stream, and there are no more new objects
than new streams. -/
structure Kernel.Reclaims (k k' : Kernel σ) : Prop where
  freed : k.net.next < k'.net.next ∧ k.net.next ∉ k'.net.live
  objects : ∀ a ∈ k'.net.live, a ∈ k.net.live ∨ ∃ s ∈ k'.allStreams, s.addr = a
  current : k'.net.live.length ≤ k.net.live.length + (k'.allStreams.length - k.allStreams.length)

/-- Nor does the driver. When its queue is empty nothing refers to a `PendingSend`. -/
structure Machine.Reclaims (m m' : Machine σ) : Prop where
  kernel : m.kernel.Reclaims m'.kernel
  tasks : m'.driver.tasks.live = []
  sends : ∀ p ∈ m'.driver.liveSends, p ∈ m.driver.liveSends

/-! ## The objects on the heap -/

/-- The record of the same object, with the same references. -/
structure SBuff.SameObject (s s' : SBuff) : Prop where
  addr : s'.addr = s.addr
  refs : s'.refs = s.refs

namespace SBuff.SameObject

variable {s s' : SBuff}

theorem push (s : SBuff) (size : BitVec 16) : (sbuffPush s size).Post s.SameObject := by
  unfold sbuffPush
  split
  · exact .error
  · exact .ok ⟨rfl, rfl⟩

theorem pop (s : SBuff) (size : BitVec 16) : (sbuffPop s size).Post s.SameObject := by
  unfold sbuffPop
  split
  · exact .error
  · exact .ok ⟨rfl, rfl⟩

theorem store (s : SBuff) (off len : Nat) (f : ByteMem → ByteMem) :
    (s.store off len f).Post s.SameObject := by
  unfold SBuff.store
  split
  · exact .ok ⟨rfl, rfl⟩
  · exact .error

end SBuff.SameObject

/-- A buffer without references, in the heap in which it was allocated. -/
structure Unowned (n : Net) (r : SBuff × Net) : Prop where
  addr : r.1.addr = n.next
  refs : r.1.refs = 0
  net : r.2 = n.kmemAlloc.2

section

variable {n : Net}

theorem ethernetSbuffAlloc_unowned (size : BitVec 16) (n : Net) :
    (ethernetSbuffAlloc size n).Post (Unowned n) :=
  .bind (SBuff.SameObject.push _ _) fun _ same => .ok ⟨same.addr, same.refs, rfl⟩

theorem ipSbuffAlloc_unowned (size : BitVec 16) (n : Net) :
    (ipSbuffAlloc size n).Post (Unowned n) := by
  refine .bind (ethernetSbuffAlloc_unowned _ n) ?_
  rintro ⟨p, n₁⟩ h
  exact .bind (SBuff.SameObject.push p _) fun p' same =>
    .ok ⟨same.addr.trans h.addr, same.refs.trans h.refs, h.net⟩

/-- The reference of the driver is not the last one. -/
theorem ethernetSend_live {s : SBuff} (hrefs : s.refs ≠ 0) (proto : BitVec 16) (dest : Mac)
    (device : NetDevice) :
    (ethernetSend s proto dest device n).Post fun n' => n'.live = n.live := by
  refine .bind (SBuff.SameObject.pop s _) fun s₁ same₁ => ?_
  refine .bind (SBuff.SameObject.store s₁ _ _ _) fun s₂ same₂ => ?_
  have hrefs₂ : ¬(addRef s₂).refs - 1 = 0 := by
    change ¬s₂.refs + 1 - 1 = 0
    rw [BitVec.add_sub_cancel, same₂.refs, same₁.refs]
    exact hrefs
  unfold deviceSend releaseRef
  rw [if_neg hrefs₂]
  exact .ok rfl

/-- The last reference is given up. -/
theorem releaseRef_last {s : SBuff} (hrefs : s.refs = 1) :
    (releaseRef s n).Post fun n' => n'.live = n.live.erase s.addr ∧ n'.sent = n.sent := by
  have hlast : s.refs - 1 = 0 := by
    rw [hrefs]
    decide
  unfold releaseRef Net.kmemFree
  rw [if_pos hlast]
  split
  · exact .ok ⟨rfl, rfl⟩
  · exact .error

/-- The buffer of a request is freed when the request has been sent. -/
theorem arpRequest_live (device : NetDevice) (targetIp : BitVec 32) (n : Net) :
    (arpRequest device targetIp n).Post fun n' => n'.live = n.live := by
  refine .bind (ethernetSbuffAlloc_unowned _ n) ?_
  rintro ⟨buf, n₁⟩ h
  have hone : (addRef buf).refs = 1 := by
    change buf.refs + 1 = 1
    rw [show buf.refs = 0 from h.refs]
    decide
  refine .bind (SBuff.SameObject.store (addRef buf) _ _ _) fun s same => ?_
  have hrefs : s.refs = 1 := same.refs.trans hone
  have hne : s.refs ≠ 0 := by
    rw [hrefs]
    decide
  refine .bind (ethernetSend_live hne _ _ device) fun n₂ hlive => ?_
  refine (releaseRef_last hrefs).mono fun n₃ ⟨herase, _⟩ => ?_
  have haddr : s.addr = n.next := same.addr.trans h.addr
  have hnet : n₁ = n.kmemAlloc.2 := h.net
  rw [herase, hlive, haddr, hnet]
  exact List.erase_cons_head _ _

/-- A request is all that is sent. -/
structure Requested (n n' : Net) : Prop where
  live : n'.live = n.live
  frame : ∃ frame, n'.sent = n.sent ++ [frame]

theorem arpLookup_requested {ip : BitVec 32} (hmiss : n.macOf ip = none) (dev : NetDevice) :
    (arpLookup dev ip n).Post fun r => r.1 = none ∧ Requested n r.2 := by
  have hfind := Option.map_eq_none_iff.mp hmiss
  unfold arpLookup
  rw [hfind]
  refine .bind ((arpRequest_live dev ip n).and (arpRequest_queued n dev ip).post) ?_
  rintro n' ⟨hlive, queued⟩
  obtain ⟨frame, hsent, _⟩ := queued.frame
  exact .ok ⟨rfl, hlive, _, hsent⟩

/-- `ip_send` gives up and leaves its buffer to the caller, who cannot tell. -/
theorem ipSend_miss {dest : BitVec 32} (hmiss : n.macOf dest = none) (s : SBuff)
    (proto : BitVec 8) (device : NetDevice) :
    (ipSend s proto dest device n).Post fun r => r.1 = .notFound ∧ Requested n r.2 := by
  refine .bind_any fun s₁ => .bind_any fun s₂ => ?_
  refine .bind (arpLookup_requested hmiss device) ?_
  rintro ⟨_, n₁⟩ ⟨rfl, requested⟩
  exact .ok ⟨rfl, requested⟩

theorem sendSegment_miss {dest : BitVec 32} (hmiss : n.macOf dest = none) (sb : SBuff)
    (hdr : TcpHdr) (data : ByteMem) (sz : BitVec 16) (dev : NetDevice) :
    (sendSegment sb hdr data sz dest dev n).Post fun n' => n'.live = n.live := by
  refine .bind_any fun s₁ => .bind_any fun s₂ => .bind_any fun s₃ => ?_
  exact .bind (ipSend_miss hmiss s₃ 6 dev) fun r h => .ok h.2.live

/-- The buffer of a segment stays behind. -/
theorem transmitSegment_miss {dest : BitVec 32} (hmiss : n.macOf dest = none) (hdr : TcpHdr)
    (data : ByteMem) (sz : BitVec 16) (dev : NetDevice) :
    (transmitSegment hdr data sz dest dev n).Post fun n' => n'.live = n.next :: n.live := by
  refine .bind (ipSbuffAlloc_unowned _ n) ?_
  rintro ⟨sb, n₁⟩ h
  have hnet : n₁ = n.kmemAlloc.2 := h.net
  rw [hnet]
  exact sendSegment_miss (n := n.kmemAlloc.2) hmiss sb hdr data sz dev

end

/-! ## The calls -/

section

variable {k : Kernel σ} {s : Stream σ}

/-- The record of the stream is allocated after the buffer. -/
theorem connected_miss {remoteAddr : BitVec 32} (hmiss : k.net.macOf remoteAddr = none)
    (dev : NetDevice) (localPort remotePort : BitVec 16) (ackSeq : BitVec 32) (fn : TcpReadFn σ) :
    (connected dev localPort remotePort remoteAddr ackSeq fn k).Post fun k' =>
      k.net.next ∈ k'.net.live := by
  refine .bind (ipSbuffAlloc_unowned _ k.net) ?_
  rintro ⟨sb, n₁⟩ h
  have hnet : n₁ = k.net.kmemAlloc.2 := h.net
  subst hnet
  refine .bind (sendSegment_miss (n := k.net.kmemAlloc.2.kmemAlloc.2) hmiss sb _ _ _ dev) ?_
  intro n₂ hlive
  refine .ok ?_
  change k.net.next ∈ n₂.live
  rw [hlive]
  exact List.mem_cons_of_mem _ List.mem_cons_self

theorem kmemFree_others (n : Net) (p : Nat) :
    (n.kmemFree p).Post fun n' => ∀ a ∈ n.live, a ≠ p → a ∈ n'.live := by
  unfold Net.kmemFree
  split
  · exact .ok fun a ha hne => (List.mem_erase_of_ne hne).mpr ha
  · exact .error

/-- In `FinWait2` the record of the stream is freed, which is not the buffer. -/
theorem fin_miss (hstate : s.state = .finWait2 ∨ s.state = .established)
    (hmiss : k.net.macOf s.remoteAddr = none) (hs : s.addr < k.net.next) (dev : NetDevice) :
    (fin dev (some s) k).Post fun r => k.net.next ∈ r.2.net.live := by
  obtain hwait | hest := hstate
  · rw [fin_finWait2 s k dev hwait]
    refine .bind (transmitSegment_miss hmiss _ _ _ dev) fun n hlive => ?_
    have hmem : k.net.next ∈ n.live := hlive ▸ List.mem_cons_self
    refine .bind (Q := fun k' => k.net.next ∈ k'.net.live) ?_ fun k' h => .ok h
    exact .bind (kmemFree_others n s.addr) fun n' hkept => .ok (hkept _ hmem hs.ne')
  · rw [fin_established s k dev hest]
    refine .bind (transmitSegment_miss hmiss _ _ _ dev) fun n hlive => .ok ?_
    change _ ∈ n.live
    rw [hlive]
    exact List.mem_cons_self

/-- The call of `ip_resolve_local` fails before `ip_send` is called. -/
theorem udpSend_miss {n : Net} {quad : UdpQuad}
    (hfail : ipResolveLocal quad.srcAddr n = .ok none ∨ n.macOf quad.dstAddr = none)
    (data : ByteMem) (size : BitVec 32) :
    (udpSend quad data size n).Post fun r => r.2.live = n.next :: n.live := by
  refine .bind (Q := fun r => r.2 = n.kmemAlloc.2) ?_ ?_
  · exact .bind (ipSbuffAlloc_unowned _ n) fun r h => .bind_any fun p => .ok h.net
  · rintro ⟨sb, n₁⟩ rfl
    refine .bind_any fun sb => ?_
    obtain hnone | hmiss := hfail
    · have hresolve : (ipResolveLocal quad.srcAddr n.kmemAlloc.2).Post fun d => d = none :=
        fun d hd => Except.ok.inj (hd.symm.trans hnone)
      refine .bind hresolve ?_
      rintro _ rfl
      exact .ok rfl
    · refine .bind_any fun device => ?_
      cases device with
      | none => exact .ok rfl
      | some dev =>
          refine .bind_any fun sb => .bind_any fun sb => ?_
          exact (ipSend_miss (n := n.kmemAlloc.2) hmiss sb 17 dev).mono fun r h => h.2.live

theorem icmpSegment_miss {n : Net} {sender : BitVec 32} {data : ByteMem} {len : BitVec 16}
    (hlen : 8 ≤ len.toNat) (htype : data 0 = 8) (hmiss : n.macOf sender = none) (dev : NetDevice) :
    (icmpSegment sender dev data len n).Post fun n' => n.next < n'.next ∧ Requested n n' := by
  have hshort : ¬len < (sizeofIcmpHeader : BitVec 16) := Nat.not_lt_of_le hlen
  dsimp only [icmpSegment]
  rw [if_neg hshort, if_pos htype]
  refine .bind (ipSbuffAlloc_unowned len n) ?_
  rintro ⟨buf, n₁⟩ h
  have hnet : n₁ = n.kmemAlloc.2 := h.net
  subst hnet
  have hone : (addRef buf).refs = 1 := by
    change buf.refs + 1 = 1
    rw [show buf.refs = 0 from h.refs]
    decide
  refine .bind (SBuff.SameObject.store (addRef buf) _ _ _) fun s same => ?_
  have haddr : s.addr = n.next := same.addr.trans h.addr
  refine .bind ((ipSend_miss (n := n.kmemAlloc.2) hmiss s 1 dev).and
    (ipSend_sameTables _ s 1 sender dev)) ?_
  rintro ⟨_, n₂⟩ ⟨⟨_, requested⟩, sent⟩
  refine ((releaseRef_last (n := n₂) (same.refs.trans hone)).and
    (releaseRef_sameTables n₂ s)).mono ?_
  rintro n₃ ⟨⟨herase, hsent⟩, released⟩
  have hlive : n₂.live = n.next :: n.live := requested.live
  refine ⟨Nat.lt_of_lt_of_le (Nat.lt_succ_self _) (sent.next.trans released.next), ?_, ?_⟩
  · rw [herase, hlive, haddr]
    exact List.erase_cons_head _ _
  · rw [hsent]
    exact requested.frame

namespace SendCall

/-- A call without a reference of its own leaves its buffer on the heap. -/
theorem run_leaks {c : SendCall σ} (hfail : c.Undeliverable k.net)
    (hbelow : ∀ s, c.stream? = some s → s.addr < k.net.next) (hrefs : c.takesReference = false) :
    (c.run k).Post fun k' => k.net.next ∈ k'.net.live := by
  cases c with
  | tcpSend s data sz =>
      rw [run, tcpSend_eq, bind_assoc]
      refine .bind (transmitSegment_miss hfail _ _ _ _) fun n hlive => .ok ?_
      rw [putStream_net]
      exact hlive ▸ List.mem_cons_self
  | tcpClose s =>
      rw [run, tcpClose_eq, bind_assoc]
      refine .bind (transmitSegment_miss hfail _ _ _ _) fun n hlive => .ok ?_
      rw [putStream_net]
      exact hlive ▸ List.mem_cons_self
  | connected dev localPort remotePort remoteAddr ackSeq fn =>
      exact connected_miss hfail dev localPort remotePort ackSeq fn
  | resetStream dev hdr srcIp =>
      rw [run, resetStream_eq]
      exact .bind (transmitSegment_miss hfail _ _ _ _) fun n hlive =>
        .ok (hlive ▸ List.mem_cons_self)
  | fin dev s =>
      refine .bind (fin_miss hfail.1 hfail.2 (hbelow s rfl) dev) fun r hmem => .ok ?_
      rw [putStream_net]
      exact hmem
  | udpSend quad data size =>
      refine .bind (udpSend_miss hfail data size) fun r hlive => .ok ?_
      change k.net.next ∈ r.2.live
      rw [hlive]
      exact List.mem_cons_self
  | icmpSegment sender dev data len => cases hrefs

/-- The reply to an echo request is freed by the one who built it; a request was sent. -/
theorem run_reclaims {c : SendCall σ} (hfail : c.Undeliverable k.net) (fresh : k.net.Fresh)
    (hrefs : c.takesReference = true) :
    (c.run k).Post fun k' => k.Reclaims k' ∧ ∃ frame, k'.net.sent = k.net.sent ++ [frame] := by
  cases c with
  | icmpSegment sender dev data len =>
      obtain ⟨hlen, htype, hmiss⟩ := hfail
      refine .bind (icmpSegment_miss hlen htype hmiss dev) ?_
      rintro n ⟨hnext, hlive, hsent⟩
      refine .ok ⟨⟨⟨hnext, fun hmem => ?_⟩, fun a ha => ?_, ?_⟩, hsent⟩
      · change k.net.next ∈ n.live at hmem
        rw [hlive] at hmem
        exact Nat.lt_irrefl _ (fresh _ hmem)
      · change a ∈ n.live at ha
        rw [hlive] at ha
        exact Or.inl ha
      · change n.live.length ≤ _
        rw [hlive]
        exact Nat.le_add_right _ _
  | _ => cases hrefs

end SendCall

end

/-- A frame that is handed over leaves an object of the driver behind. -/
theorem Driver.Transmits.leaks {iomem : NetDevice → BitVec 16} {d d' : Driver}
    {frames : List (NetDevice × SBuff)} {pending : List PendingTask} (sound : d.Sound pending)
    (h : d.Transmits iomem frames d') (hne : frames ≠ []) :
    ∃ p ∈ d'.liveSends, p ∉ d.liveSends := by
  obtain ⟨new, hsends, hlength, hfresh⟩ := h.sends
  obtain ⟨p, hp⟩ := List.exists_mem_of_length_pos (hlength ▸ List.length_pos_iff.mpr hne)
  refine ⟨p, hsends ▸ List.mem_append_left _ hp, fun hold => ?_⟩
  exact Nat.lt_irrefl _ ((sound.below.2.1 p hold).trans_le (hfresh p hp))

/-- In every state of every run: when a packet cannot be sent, some object stays behind that
nothing refers to, also after the task queue has been worked off. The network layer itself loses
nothing exactly if the sender took a reference to its buffer. -/
theorem undelivered_never_reclaims (iomem : NetDevice → BitVec 16) (junk : Nat → ByteMem) (app : σ)
    (ops : List (MachineOp σ)) (m : Machine σ)
    (run : Transition.exec (machineStep iomem) (.boot junk app) ops = .ok m) (c : SendCall σ)
    (hstream : ∀ s, c.stream? = some s → ∃ t ∈ m.kernel.allStreams, t.addr = s.addr)
    (hfail : c.Undeliverable m.kernel.net) (m₁ : Machine σ) (hrun : m.call iomem c.run = .ok m₁) :
    m₁.poll.Total fun m' => ¬m.Reclaims m' ∧
      (m.kernel.Reclaims m'.kernel ↔ c.takesReference = true) := by
  have sound := machine_sound run
  have heap := (run_heapSound ((machine_run (boot_machineSound junk app)).mpr ⟨_, run⟩)).1
  obtain ⟨k, hk, _⟩ := Except.bind_eq_ok.mp hrun
  obtain ⟨rfl, transmits⟩ := (sound.call_transmits hk).post m₁ hrun
  obtain ⟨pending, driver⟩ := sound.driver
  obtain ⟨pending₁, driver₁⟩ := transmits.sound
  refine driver₁.machinePoll.mono fun m' ⟨hkernel, _, same⟩ => ?_
  rw [hkernel]
  have hiff : m.kernel.Reclaims m₁.kernel ↔ c.takesReference = true := by
    refine ⟨fun reclaims => ?_, fun hrefs => (c.run_reclaims hfail heap.fresh hrefs _ hk).1⟩
    by_contra hrefs
    refine reclaims.freed.2 (c.run_leaks hfail (fun s hs => ?_) (Bool.eq_false_iff.mpr hrefs) _ hk)
    obtain ⟨t, ht, haddr⟩ := hstream s hs
    exact haddr ▸ heap.wf.below t ht
  refine ⟨fun reclaims => ?_, hiff⟩
  have hrefs := hiff.mp (hkernel ▸ reclaims.kernel)
  obtain ⟨_, frame, hsent⟩ := c.run_reclaims hfail heap.fresh hrefs _ hk
  have hne : handedOver m.kernel.net m₁.kernel.net ≠ [] := by
    rw [handedOver, hsent, List.drop_left]
    exact List.cons_ne_nil _ _
  obtain ⟨p, hp, hnew⟩ := transmits.leaks driver hne
  exact hnew (reclaims.sends p (same.liveSends ▸ hp))

/-- The answers to a segment for an unknown stream and to an echo request, for concrete runs. -/
def peerRst : SendCall Unit :=
  .resetStream ⟨0xC0A80302, 0⟩ (peerSegment TcpFlag.ack 5 1 0 []).hdr 0xC0A80301

def peerPong : SendCall Unit := .icmpSegment 0xC0A80301 ⟨0xC0A80302, 0⟩ (fun _ => 8) 8

def bootMachine : Machine Unit := .boot (fun _ _ => 0) ()

theorem peerRst_returns : ∃ m, bootMachine.call (fun _ => 0xc000) peerRst.run = .ok m := by
  obtain ⟨k, hrun, _⟩ := resetStream_total (boot_heapSound (fun _ _ => 0) ()).fresh
    ⟨0xC0A80302, 0⟩ (peerSegment TcpFlag.ack 5 1 0 []).hdr 0xC0A80301
  obtain ⟨m, hm, _⟩ := (boot_machineSound (fun _ _ => 0) ()).call_transmits (f := peerRst.run) hrun
  exact ⟨m, hm⟩

theorem peerPong_returns : ∃ m, bootMachine.call (fun _ => 0xc000) peerPong.run = .ok m := by
  obtain ⟨n, hn, _⟩ := icmpSegment_total (boot_heapSound (fun _ _ => 0) ()).fresh 0xC0A80301
    ⟨0xC0A80302, 0⟩ (fun _ => 8)
    (show ¬((8 : BitVec 8) = 8 ∧ 65502 ≤ (8 : BitVec 16).toNat) by decide)
  obtain ⟨m, hm, _⟩ := (boot_machineSound (fun _ _ => 0) ()).call_transmits (f := peerPong.run)
    (Except.bind_eq_ok.mpr ⟨n, hn, rfl⟩)
  exact ⟨m, hm⟩

theorem peerRst_stream (s : Stream Unit) : peerRst.stream? ≠ some s := nofun

theorem peerPong_stream (s : Stream Unit) : peerPong.stream? ≠ some s := nofun

/-- No address is known for the `Rst`. -/
theorem rst_leaks : ¬∀ (iomem : NetDevice → BitVec 16) (junk : Nat → ByteMem) (app : Unit)
    (ops : List (MachineOp Unit)) (m : Machine Unit),
    Transition.exec (machineStep iomem) (.boot junk app) ops = .ok m →
      ∀ c : SendCall Unit,
        (∀ s, c.stream? = some s → ∃ t ∈ m.kernel.allStreams, t.addr = s.addr) →
        c.Undeliverable m.kernel.net → ∀ m₁, m.call iomem c.run = .ok m₁ →
          m₁.poll.Total (m.Reclaims ·) := by
  intro claim
  obtain ⟨m₁, hrun⟩ := peerRst_returns
  obtain ⟨k, hk, _⟩ := Except.bind_eq_ok.mp hrun
  have hmiss : peerRst.Undeliverable bootMachine.kernel.net := rfl
  have hleak := peerRst.run_leaks hmiss (fun s hs => absurd hs (peerRst_stream s)) rfl k hk
  obtain ⟨m', hpoll, reclaims⟩ := claim _ _ () [] _ rfl peerRst
    (fun s hs => absurd hs (peerRst_stream s)) hmiss m₁ hrun
  obtain ⟨rfl, transmits⟩ :=
    ((boot_machineSound (fun _ _ => 0) ()).call_transmits hk).post m₁ hrun
  obtain ⟨pending, sound⟩ := transmits.sound
  obtain ⟨hkernel, _⟩ := sound.machinePoll.post m' hpoll
  exact reclaims.kernel.freed.2 (hkernel ▸ hleak)

/-- The two answers with an empty ARP table: the first one is freed, and only the request for
the address leaves something behind. -/
theorem undelivered_never_reclaims_boot :
    (∃ m₁, bootMachine.call (fun _ => 0xc000) peerPong.run = .ok m₁ ∧
        m₁.poll.Total fun m' => ¬bootMachine.Reclaims m' ∧
          bootMachine.kernel.Reclaims m'.kernel) ∧
      ∃ m₁, bootMachine.call (fun _ => 0xc000) peerRst.run = .ok m₁ ∧
        m₁.poll.Total fun m' => ¬bootMachine.kernel.Reclaims m'.kernel := by
  obtain ⟨m₁, hrun₁⟩ := peerPong_returns
  obtain ⟨m₂, hrun₂⟩ := peerRst_returns
  have hpong : peerPong.Undeliverable bootMachine.kernel.net := ⟨by decide, rfl, rfl⟩
  have hrst : peerRst.Undeliverable bootMachine.kernel.net := rfl
  have pong := undelivered_never_reclaims _ _ () [] _ rfl peerPong
    (fun s hs => absurd hs (peerPong_stream s)) hpong m₁ hrun₁
  have rst := undelivered_never_reclaims _ _ () [] _ rfl peerRst
    (fun s hs => absurd hs (peerRst_stream s)) hrst m₂ hrun₂
  refine ⟨⟨m₁, hrun₁, pong.mono fun m' h => ⟨h.1, h.2.mpr rfl⟩⟩, m₂, hrun₂, ?_⟩
  exact rst.mono fun m' h reclaims => nomatch h.2.mp reclaims

end BadOs
