import BadOs.Net.Resolution
import BadOs.Net.Segments
import BadOs.Net.System

/-!
# Segments that leave

Of the frames that a device is given, those with a segment are what the peers see of TCP. A
segment whose address is not known yet leaves no such frame, only a request for the address.
-/

namespace BadOs

variable {σ : Type}

/-! ## The segment in a frame -/

/-- The segment that a device was given, and the address that its packet goes to. -/
def sentSegment (e : NetDevice × SBuff) : Option (BitVec 32 × Segment) :=
  (frameSegment e.1 e.2.frame).map fun g => (ntol (e.2.frame.read 30 4), g)

/-- The segments that were handed to a device, in order. -/
def segmentsSent (n : Net) : List (BitVec 32 × Segment) := n.sent.filterMap sentSegment

/-- What is found in a segment that a device sends with this header and payload. -/
structure Segment.Carries (g : Segment) (device : NetDevice) (hdr : TcpHdr)
    (payload : List (BitVec 8)) : Prop where
  dev : g.dev = device
  srcIp : g.srcIp = device.ip
  hdr : g.hdr = { hdr with chksum := g.hdr.chksum }
  sz : g.sz.toNat = sizeofTcpHdr + payload.length
  payload : g.data.slice sizeofTcpHdr payload.length = payload

theorem segmentsSent_same {n n' : Net} (h : n'.sent = n.sent) : segmentsSent n' = segmentsSent n :=
  congrArg (List.filterMap sentSegment) h

theorem segmentsSent_append {n n' : Net} {e : NetDevice × SBuff} (h : n'.sent = n.sent ++ [e]) :
    segmentsSent n' = segmentsSent n ++ (sentSegment e).toList := by
  rw [segmentsSent, h, List.filterMap_append]
  cases hseg : sentSegment e <;> simp [segmentsSent, hseg]

/-- The known addresses are in one of the tables. -/
theorem Net.SameTables.macOf {n n' : Net} (same : n.SameTables n') (ip : BitVec 32) :
    n'.macOf ip = n.macOf ip := by
  rw [Net.macOf, same.table]
  rfl

theorem SBuff.frame_of_head {s : SBuff} (h : s.head = 0) : s.frame = s.data := by
  funext x
  rw [SBuff.frame, h, ByteMem.shift, Nat.zero_add]

/-- A frame with an ARP message carries no segment. -/
theorem ArpQueued.segmentsSent {n n' : Net} {dev : NetDevice} {dest : Mac}
    {operation : BitVec 16} {targetIp : BitVec 32}
    (h : ArpQueued n dev dest operation targetIp n') : segmentsSent n' = segmentsSent n := by
  obtain ⟨_, frame, hsent, hhead, _, harp⟩ := h
  have hnone : sentSegment (dev, frame) = none := by
    rw [sentSegment, SBuff.frame_of_head hhead, frameSegment, if_neg]
    · rfl
    · rintro ⟨htype, _⟩
      exact absurd (harp.type.symm.trans htype) (by decide)
  rw [segmentsSent_append hsent, hnone]
  exact List.append_nil _

section

variable (len : BitVec 16) (src dest : BitVec 32) (destMac source : Mac) (m : ByteMem)

/-- The frame is read as it was built. -/
theorem frameSegment_ipFrame (dev : NetDevice) :
    frameSegment dev (ipFrame len 6 src dest destMac source m) =
      some ⟨dev, m.shift 34, len.setWidth 32 - 20, src⟩ := by
  have htype := ipFrame_type len 6 src dest destMac source m
  dsimp only [frameSegment]
  rw [ipFrame_load, if_pos ⟨htype, rfl⟩]
  dsimp only
  have hheader : Ipv4Header.hdrLen ⟨5, ntos len, 6, ntol src⟩ = 20 := rfl
  have hoff : 14 + (20 : BitVec 16).toNat = 34 := rfl
  rw [hheader, ntos_ntos, ntol_ntol, ByteMem.shift_shift, hoff, ipFrame_payload]
  rfl

/-- The segment that a receiver takes out of a frame of this device. -/
def builtSegment (dev : NetDevice) (hdr : TcpHdr) (data : ByteMem) (sz : BitVec 16)
    (dest : BitVec 32) (m : ByteMem) : Segment where
  dev := dev
  data := (segmentMem hdr data sz dev.ip dest m).shift 34
  sz := 20 + sz.setWidth 32
  srcIp := dev.ip

theorem builtSegment_carries (dev : NetDevice) (hdr : TcpHdr) (data : ByteMem) (sz : BitVec 16) :
    (builtSegment dev hdr data sz dest m).Carries dev hdr (data.slice 0 sz.toNat) where
  dev := rfl
  srcIp := rfl
  hdr := by
    have hload := segmentMem_load hdr data sz dev.ip dest m
    dsimp only [Segment.hdr, builtSegment]
    rw [hload]
  sz := by
    rw [ByteMem.length_slice]
    change (20 + sz.setWidth 32 : BitVec 32).toNat = 20 + sz.toNat
    bv_omega
  payload := by
    rw [ByteMem.length_slice]
    change ((segmentMem hdr data sz dev.ip dest m).shift 34).slice 20 sz.toNat = _
    rw [ByteMem.slice_shift]
    exact segmentMem_payload hdr data sz dev.ip dest m

end

/-! ## Sending -/

section

variable {n : Net}

/-- A packet to an unknown address is dropped. -/
theorem ipSend_arpQueued {s : SBuff} (hhead : s.head = 34) (proto : BitVec 8) {dest : BitVec 32}
    (device : NetDevice) (hmiss : n.macOf dest = none) :
    (ipSend s proto dest device n).Total fun r =>
      r.1 = .notFound ∧ ArpQueued n device broadcastMac 1 dest r.2 := by
  have hsize := s.head_eq
  have hpop : (20 : BitVec 16).toNat ≤ s.head := by
    rw [hhead]
    decide
  refine .bind (sbuffPop_total hpop) ?_
  rintro s₁ ⟨_, htotal, hhead₁, _, _⟩
  have hhead₁ : s₁.head = 14 := by
    rw [hhead₁, hhead]
    rfl
  have hroom : s₁.head + 20 ≤ s₁.totalSize.toNat := by
    rw [htotal, hhead₁]
    omega
  refine .bind ⟨_, SBuff.store_eq hroom _, rfl⟩ ?_
  rintro _ rfl
  refine .bind (arpLookup_miss n device hmiss) ?_
  rintro ⟨_, n'⟩ ⟨rfl, hqueued⟩
  exact .ok ⟨rfl, hqueued⟩

variable {sb : SBuff} {sz : BitVec 16}

/-- A segment leaves if its address is known. -/
theorem sendSegment_segments (hs : sb.addr ∈ n.live) (hhead : sb.head = 34)
    (hsize : 54 + sz.toNat = sb.totalSize.toNat) (hdr : TcpHdr) (data : ByteMem)
    (dest : BitVec 32) (dev : NetDevice) :
    (sendSegment sb hdr data sz dest dev n).Total fun n' => ∃ g : Segment,
      g.Carries dev hdr (data.slice 0 sz.toNat) ∧
        segmentsSent n' = segmentsSent n ++ if (n.macOf dest).isSome then [(dest, g)] else [] := by
  refine Except.Total.mono ?_ fun n' h =>
    ⟨builtSegment dev hdr data sz dest sb.data,
      builtSegment_carries dest sb.data dev hdr data sz, h⟩
  rw [sendSegment_ipSend hhead hsize.le]
  cases hmac : n.macOf dest with
  | none =>
      refine .bind (ipSend_arpQueued (by exact hhead) 6 dev hmac) ?_
      rintro ⟨_, n'⟩ ⟨_, hqueued⟩
      apply Except.Total.ok
      rw [hqueued.segmentsSent]
      exact (List.append_nil _).symm
  | some mac =>
      refine .bind (ipSend_eq (by exact hs) (by exact hhead) 6 (arpLookup_eq_some_iff.mpr hmac)) ?_
      rintro ⟨_, n'⟩ ⟨_, frame, len, hsent, hlen, hframe⟩
      have hlen : len.toNat + 14 = sb.totalSize.toNat := hlen
      have hcount : len.setWidth 32 - 20 = 20 + sz.setWidth 32 := by bv_omega
      have hdata : frame.frame = _ := (SBuff.frame_of_head hframe.head).trans hframe.data
      have hsegment : sentSegment (dev, frame) =
          some (dest, builtSegment dev hdr data sz dest sb.data) := by
        rw [sentSegment, hdata, frameSegment_ipFrame,
          (ipFrame_addresses dev.ip dest _ len 6 mac dev.mac).2, ntol_ntol, hcount]
        rfl
      apply Except.Total.ok
      rw [segmentsSent_append hsent, hsegment]
      rfl

end

/-! ## The segments of a stream -/

section

variable {k : Kernel σ}

theorem transmitSegment_segments (hdr : TcpHdr) (data : ByteMem) {sz : BitVec 16}
    (hsz : sz.toNat < 65482) (dest : BitVec 32) (dev : NetDevice) (n : Net) :
    (transmitSegment hdr data sz dest dev n).Total fun n' => ∃ g : Segment,
      g.Carries dev hdr (data.slice 0 sz.toNat) ∧
        segmentsSent n' = segmentsSent n ++ if (n.macOf dest).isSome then [(dest, g)] else [] := by
  have hsize := segmentSize_toNat (hsz.trans (by decide))
  refine .bind (ipSbuffAlloc_total n (20 + sz) (by omega)) ?_
  rintro ⟨sb, n₁⟩ b
  have hnet : n₁ = n.kmemAlloc.2 := b.net
  have htotal : 54 + sz.toNat = sb.totalSize.toNat := by
    have hbuffer : sb.totalSize.toNat = _ := b.totalSize
    omega
  refine (sendSegment_segments b.mem_live b.head htotal hdr data dest dev).mono ?_
  rintro n₂ ⟨g, hcarries, hsent⟩
  refine ⟨g, hcarries, ?_⟩
  rw [hsent, hnet]
  rfl

/-- A segment without payload. -/
theorem transmitSegment_empty (hdr : TcpHdr) (data : ByteMem) (dest : BitVec 32)
    (dev : NetDevice) (n : Net) :
    (transmitSegment hdr data 0 dest dev n).Total fun n' => ∃ g : Segment, g.Carries dev hdr [] ∧
      segmentsSent n' = segmentsSent n ++ if (n.macOf dest).isSome then [(dest, g)] else [] :=
  transmitSegment_segments hdr data (by decide) dest dev n

/-- The segment that leaves is the one that the event is about. -/
def Segment.Leaves (g : Segment) (dev : NetDevice) (e : TcpEvent) : Prop :=
  ∃ addr hdr payload, e = .segment addr hdr payload ∧ g.Carries dev hdr payload

theorem leaves_callEvent {s : Stream σ} {c : AppCall} {g : Segment}
    (h : g.Carries s.dev (headerFromStream s c.flag).1 (c.payload.slice 0 c.size.toNat)) :
    g.Leaves s.dev (s.callEvent c) :=
  ⟨_, _, _, s.callEvent_eq c, h⟩

/-- The segments of the calls leave in their order. -/
theorem appCalls_segments (s : Stream σ) (calls : List AppCall) (k : Kernel σ) :
    (appCalls s calls k).Post fun r => k.net.SameTables r.2.net ∧ ∃ gs : List Segment,
      List.Forall₂ (fun g e => Segment.Leaves g s.dev e) gs (s.callEvents calls) ∧
      segmentsSent r.2.net = segmentsSent k.net ++
        if (k.net.macOf s.remoteAddr).isSome then gs.map (Prod.mk s.remoteAddr) else [] := by
  induction calls generalizing s k with
  | nil =>
      refine .ok ⟨.refl _, [], .nil, ?_⟩
      simp
  | cons c calls ih =>
      rw [appCalls_cons]
      intro r h
      obtain ⟨n, hn, hrest⟩ := Except.bind_eq_ok.mp h
      have hsz := transmitSegment_fits _ _ _ _ _ _ n hn
      have same := transmitSegment_sameTables _ _ _ _ _ _ n hn
      obtain ⟨g, hcarries, hsent⟩ := (transmitSegment_segments _ _ hsz _ _ _).post n hn
      obtain ⟨same', gs, hgs, hsent'⟩ := ih (s.afterCall c) _ r hrest
      have hconn := s.afterCall_sameConn c
      rw [hconn.dev] at hgs
      refine ⟨same.trans same', g :: gs, .cons (leaves_callEvent hcarries) hgs, ?_⟩
      rw [hsent', hconn.remoteAddr]
      change segmentsSent n ++ (if (n.macOf s.remoteAddr).isSome then _ else _) = _
      rw [hsent, same.macOf]
      split
      · rw [List.append_assoc]
        rfl
      · rw [List.append_nil]

theorem removeStream_sent (s : Stream σ) (k : Kernel σ) :
    (removeStream s k).Post fun k' => k'.net.sent = k.net.sent := by
  refine .bind (Q := fun n => n.sent = k.net.sent) ?_ fun n hn => .ok hn
  unfold Net.kmemFree
  split
  · exact .ok rfl
  · exact .error

/-- The answer to a `Fin` leaves in the states that have one. -/
theorem fin_segments (dev : NetDevice) (s : Stream σ) (k : Kernel σ)
    (hstate : s.state = .established ∨ s.state = .finWait2) :
    (fin dev (some s) k).Post fun r => ∃ (g : Segment) (flags : BitVec 8),
      g.Leaves dev (s.finEvent (flags ||| TcpFlag.ack)) ∧
      segmentsSent r.2.net = segmentsSent k.net ++
        if (k.net.macOf s.remoteAddr).isSome then [(s.remoteAddr, g)] else [] := by
  obtain hstate | hstate := hstate
  · rw [fin_established s k dev hstate]
    refine .bind (transmitSegment_empty _ _ _ _ _).post ?_
    rintro n ⟨g, hcarries, hsent⟩
    exact .ok ⟨g, TcpFlag.fin, ⟨_, _, _, rfl, hcarries⟩, hsent⟩
  · rw [fin_finWait2 s k dev hstate]
    refine .bind (transmitSegment_empty _ _ _ _ _).post ?_
    rintro n ⟨g, hcarries, hsent⟩
    refine .bind (removeStream_sent _ _) ?_
    rintro k' hk'
    refine .ok ⟨g, TcpFlag.ack, ⟨_, _, _, rfl, hcarries⟩, ?_⟩
    exact (segmentsSent_same hk').trans hsent

end

end BadOs
