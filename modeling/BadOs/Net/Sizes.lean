import BadOs.Net.Datagrams
import BadOs.Net.Emission
import BadOs.Net.Removal

/-!
# Sizes that can be sent

Each layer adds the size of its header in 16 bits and then takes that many bytes from the new
buffer, but the payload is copied with the size that the caller gave.
-/

namespace BadOs

variable {σ : Type}

/-- One frame was handed to the device, with the payload behind its headers and nothing else. -/
def SendsWhole (n n' : Net) (dev : NetDevice) (headers : Nat) (data : ByteMem) (size : Nat) :
    Prop :=
  ∃ frame, n'.sent = n.sent ++ [(dev, frame)] ∧ frame.head = 0 ∧
    frame.totalSize.toNat = headers + size ∧ frame.data.slice headers size = data.slice 0 size

/-- The payload is not sent; at most the address of the peer is asked for. -/
def Refuses (n n' : Net) (dest : BitVec 32) : Prop :=
  n'.sent = n.sent ∨ ∃ dev, ArpQueued n dev broadcastMac 1 dest n'

/-! ## TCP -/

section

variable (s : Stream σ) (k : Kernel σ) (data : ByteMem) {sz : BitVec 16}

/-- A segment to an unknown address is dropped. -/
theorem tcpSend_arpQueued (hsz : sz.toNat ≤ 65481) (hmiss : k.net.macOf s.remoteAddr = none) :
    (tcpSend s data sz k).Total fun r =>
      ArpQueued k.net s.dev broadcastMac 1 s.remoteAddr r.2.net := by
  have hsize := segmentSize_toNat (hsz.trans_lt (by decide))
  rw [tcpSend_eq]
  refine .bind (Q := fun n => ArpQueued k.net s.dev broadcastMac 1 s.remoteAddr n) ?_
    fun n hqueued => .ok hqueued
  refine .bind (ipSbuffAlloc_total k.net (20 + sz) (by omega)) ?_
  rintro ⟨sb, n₁⟩ b
  have hnet : n₁ = k.net.kmemAlloc.2 := b.net
  subst hnet
  have htotal : 54 + sz.toNat ≤ sb.totalSize.toNat := by
    have hbuffer : sb.totalSize.toNat = _ := b.totalSize
    omega
  rw [sendSegment_ipSend b.head htotal]
  refine .bind (ipSend_arpQueued (by exact b.head) 6 s.dev (by exact hmiss)) ?_
  rintro ⟨_, n'⟩ ⟨_, hqueued⟩
  exact .ok ⟨hqueued.table, hqueued.frame⟩

/-- The sum of the headers and the payload fits in the 16 bits of a buffer. -/
theorem tcpSend_iff : ((tcpSend s data sz k).Total fun r =>
    SendsWhole k.net r.2.net s.dev 54 data sz.toNat ∨ Refuses k.net r.2.net s.remoteAddr) ↔
      sz.toNat ≤ 65481 := by
  constructor
  · rintro ⟨r, hr, _⟩
    rw [tcpSend_eq] at hr
    obtain ⟨n, hn, _⟩ := Except.bind_eq_ok.mp hr
    exact Nat.le_of_lt_succ (transmitSegment_fits _ _ _ _ _ _ n hn)
  · intro hsz
    cases hmac : k.net.macOf s.remoteAddr with
    | none =>
        refine (tcpSend_arpQueued s k data hsz hmac).mono ?_
        intro r hqueued
        exact .inr (.inr ⟨s.dev, hqueued⟩)
    | some mac =>
        refine (tcpSend_frame s k data (by omega) hmac).mono ?_
        rintro r ⟨frame, len, hsent, hhead, htotal, _, hdata⟩
        refine .inl ⟨frame, hsent, hhead, htotal, ?_⟩
        rw [hdata]
        exact ipFrame_segment_payload _ _ _ _ _ _ _ _ _

end

/-! ## UDP -/

/-- Before `map_init` a lookup goes through a null pointer. -/
theorem mapLookup_error {V : Type} {map : MapT V} (h : map.data = none) (key : BitVec 32) :
    ∃ e, mapLookup map key = .error e := by
  unfold mapLookup mapBucket
  rw [h]
  cases map.hash with
  | none => exact ⟨_, rfl⟩
  | some hash =>
      dsimp only
      split
      · exact ⟨_, rfl⟩
      · exact ⟨_, rfl⟩

section

variable {n : Net} (quad : UdpQuad) (data : ByteMem) {size : BitVec 32}

/-- No device can be looked up before the first packet has arrived. -/
theorem udpSend_unready (hsize : size.toNat ≤ 65493) (h : n.ipDevices.data = none) :
    ∃ e, udpSend quad data size n = .error e := by
  obtain ⟨e, he⟩ := mapLookup_error h (ntol quad.srcAddr)
  obtain ⟨sb, hsend, _⟩ := udpSend_resolve quad data hsize
  exact ⟨e, hsend.trans (Except.bind_error he)⟩

theorem udpSend_ready (hsize : size.toNat ≤ 65493) (ready : n.ipDevices.Ready mapIntHash) :
    (udpSend quad data size n).Total fun r =>
      (r.1 = .ok ∧ ∃ dev, SendsWhole n r.2 dev 42 data size.toNat) ∨
        r.1 ≠ .ok ∧ Refuses n r.2 quad.dstAddr := by
  obtain ⟨found, hfound⟩ := ready.mapLookup_eq (ntol quad.srcAddr)
  have hdev : ipResolveLocal quad.srcAddr n = .ok found := hfound
  cases found with
  | none =>
      obtain ⟨sb, hsend, _⟩ := udpSend_resolve (n := n) quad data hsize
      rw [hsend, hdev]
      exact .ok (.inr ⟨(nomatch ·), .inl rfl⟩)
  | some dev =>
      cases hmac : n.macOf quad.dstAddr with
      | none =>
          obtain ⟨sb, m, hsend, _, hhead, _⟩ := udpSend_ipSend quad data hsize hdev
          rw [hsend]
          refine (ipSend_arpQueued hhead 17 dev (by exact hmac)).mono ?_
          rintro ⟨_, n'⟩ ⟨rfl, hqueued⟩
          exact .inr ⟨(nomatch ·), .inr ⟨dev, hqueued.table, hqueued.frame⟩⟩
      | some mac =>
          refine (udpSend_eq quad data hsize hdev hmac).mono ?_
          rintro r ⟨hok, frame, hsent, hhead, htotal, hpayload, _⟩
          rw [ByteMem.slice_shift] at hpayload
          exact .inl ⟨hok, dev, frame, hsent, hhead, htotal, hpayload⟩

theorem udpSend_iff (devices : n.Devices) : ((udpSend quad data size n).Total fun r =>
    (r.1 = .ok ∧ ∃ dev, SendsWhole n r.2 dev 42 data size.toNat) ∨
      r.1 ≠ .ok ∧ Refuses n r.2 quad.dstAddr) ↔
      size.toNat ≤ 65493 ∧ n.ipDevices.data.isSome = true := by
  constructor
  · rintro ⟨r, hr, _⟩
    have hsize : size.toNat ≤ 65493 := by
      by_contra hlarge
      exact udpSend_oversized quad data (by omega) r hr
    refine ⟨hsize, ?_⟩
    by_contra hunready
    obtain ⟨e, he⟩ := udpSend_unready (n := n) quad data hsize (by simpa using hunready)
    cases he.symm.trans hr
  · rintro ⟨hsize, hsome⟩
    exact udpSend_ready quad data hsize (devices hsome)

end

/-! ## Both -/

/-- A datagram of 65536 bytes, after a packet has arrived. -/
theorem send_sizes_truncated : ¬∀ (junk : Nat → ByteMem) (app : Unit) (ops : List (KernelOp Unit))
    (k : Kernel Unit), Transition.exec kernelStep (.boot junk app) ops = .ok k →
    (∀ (s : Stream Unit) (data : ByteMem) (sz : BitVec 16), (tcpSend s data sz k).Total fun r =>
      SendsWhole k.net r.2.net s.dev 54 data sz.toNat ∨ Refuses k.net r.2.net s.remoteAddr) ∧
    (k.net.ipDevices.data.isSome = true → ∀ (quad : UdpQuad) (data : ByteMem) (size : BitVec 32),
      (udpSend quad data size k.net).Total fun r =>
        (r.1 = .ok ∧ ∃ dev, SendsWhole k.net r.2 dev 42 data size.toNat) ∨
          r.1 ≠ .ok ∧ Refuses k.net r.2 quad.dstAddr) := by
  intro claim
  have hrun : Transition.check kernelStep (fun _ _ => True) (fun k => k.net.ipDevices.data.isSome)
      (Kernel.boot (fun _ _ => 0) ()) [.frame ⟨0xC0A80302, 0⟩ (pingFrame 28)] = true := by
    decide +kernel
  obtain ⟨k, run, hsome⟩ := Transition.Run.of_check hrun
  have hclaim := (claim _ _ _ k run.exec_eq).2 hsome ⟨0, 0, 7, 7⟩ (fun _ => 0) 65536
  have hsize := (udpSend_iff _ _ (run_heapSound run.exec_eq).1.devices).mp hclaim
  exact absurd hsize.1 (by decide)

/-- In every state of every run, `tcp_send` and `udp_send` send all of the payload in one frame, or
refuse to, exactly for the sizes that leave room for the headers; and for `udp_send` the
map of devices must have been set up. -/
theorem send_sizes_iff (junk : Nat → ByteMem) (app : σ) (ops : List (KernelOp σ)) (k : Kernel σ)
    (run : Transition.exec kernelStep (.boot junk app) ops = .ok k) :
    (∀ (s : Stream σ) (data : ByteMem) (sz : BitVec 16), ((tcpSend s data sz k).Total fun r =>
      SendsWhole k.net r.2.net s.dev 54 data sz.toNat ∨ Refuses k.net r.2.net s.remoteAddr) ↔
        sz.toNat ≤ 65481) ∧
    ∀ (quad : UdpQuad) (data : ByteMem) (size : BitVec 32),
      ((udpSend quad data size k.net).Total fun r =>
        (r.1 = .ok ∧ ∃ dev, SendsWhole k.net r.2 dev 42 data size.toNat) ∨
          r.1 ≠ .ok ∧ Refuses k.net r.2 quad.dstAddr) ↔
        size.toNat ≤ 65493 ∧ k.net.ipDevices.data.isSome = true := by
  constructor
  · intro s data sz
    exact tcpSend_iff s k data
  · intro quad data size
    exact udpSend_iff quad data (run_heapSound run).1.devices

/-- The largest datagram goes to a peer whose address is known. -/
theorem send_sizes_known : ∃ k : Kernel Unit,
    Transition.exec kernelStep (.boot (fun _ _ => 0) ())
      [.frame ⟨0xC0A80302, 0⟩ peerArp, .frame ⟨0xC0A80302, 0⟩ (pingFrame 28)] = .ok k ∧
    ∀ data : ByteMem, (udpSend ⟨ntol 0xC0A80302, 0xC0A80301, 7, 7⟩ data 65493 k.net).Total fun r =>
      r.1 = .ok ∧ ∃ dev, SendsWhole k.net r.2 dev 42 data 65493 := by
  have hrun : Transition.check kernelStep (fun _ _ => True)
      (fun k => decide (k.net.macOf 0xC0A80301 = some 0x060504030201) &&
        (k.net.ipDevices.data.isSome &&
          (ipResolveLocal (ntol 0xC0A80302) k.net).holds (· == some ⟨0xC0A80302, 0⟩)))
      (Kernel.boot (fun _ _ => 0) ())
      [.frame ⟨0xC0A80302, 0⟩ peerArp, .frame ⟨0xC0A80302, 0⟩ (pingFrame 28)] = true := by
    decide +kernel
  obtain ⟨k, run, hpost⟩ := Transition.Run.of_check hrun
  obtain ⟨hmac, hpost⟩ := Bool.and_eq_true_iff.mp hpost
  obtain ⟨hsome, hdev⟩ := Bool.and_eq_true_iff.mp hpost
  obtain ⟨found, hdev, hfound⟩ := Except.exists_of_holds hdev
  cases eq_of_beq hfound
  refine ⟨k, run.exec_eq, fun data => ?_⟩
  obtain ⟨r, hr, hcases⟩ := ((send_sizes_iff _ () _ k run.exec_eq).2
    ⟨ntol 0xC0A80302, 0xC0A80301, 7, 7⟩ data 65493).mpr ⟨by decide, hsome⟩
  have hok := (udpSend_eq ⟨ntol 0xC0A80302, 0xC0A80301, 7, 7⟩ data (by decide) hdev
    (of_decide_eq_true hmac)).post r hr
  exact ⟨r, hr, hcases.resolve_right fun h => h.1 hok.1⟩

end BadOs
