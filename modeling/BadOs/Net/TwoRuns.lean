import BadOs.Net.Comparison
import BadOs.Net.Packet
import BadOs.Net.System

/-!
# Two kernels with the same tables

Each function of the receiving side is run by two kernels that know the same about the
outside while their heaps differ, on data that agree as far as the lengths say. They send
the same frames. Of the applications it is assumed that what they do depends only on the
data that they are given.
-/

namespace BadOs

variable {σ : Type} {n n' : Net}

/-! ## Echo replies -/

theorem pongFields_sameOn {S : Set Nat} {m m' data data' : ByteMem} (h : ByteMem.SameOn S m m')
    (head : Nat) (id sequence : BitVec 16) {len : Nat} (hdata : ByteMem.AgreeOn 0 len data data') :
    ByteMem.SameOn ((S ∪ Set.Ico head (head + len)) \ Set.Ico (head + 2) (head + 4))
      (pongFields head id sequence data len m) (pongFields head id sequence data' len m') := by
  have hfields := (((((h.fill head 8 0).write head 1 0).write (head + 1) 1 0).write (head + 4) 2
    id).write (head + 6) 2 sequence).write (head + 2) 2 0
  have hzero := hfields.mono fun x (hx : x ∈ S ∪ Set.Ico head (head + 8)) =>
    Or.inl (Or.inl (Or.inl (Or.inl (Or.inl hx))))
  refine ((checksum_sameOn_diff hzero head len (head + 2)).copy (head + 8) 8 (len - 8)
    fun x _ hx => hdata x (Nat.zero_le x) (by omega)).mono ?_
  rintro x ⟨hx | ⟨hlo, hhi⟩, hout⟩
  · exact Or.inl ⟨Or.inl hx, hout⟩
  · by_cases hlt : x < head + 8
    · exact Or.inl ⟨Or.inr ⟨hlo, hlt⟩, hout⟩
    · exact Or.inr ⟨Nat.le_of_not_lt hlt, by omega⟩

theorem icmpSegment_agree (h : n.Alike n') (sender : BitVec 32) (dev : NetDevice)
    {data data' : ByteMem} {len : BitVec 16}
    (hdata : 8 ≤ len.toNat → ByteMem.AgreeOn 0 len.toNat data data') :
    (icmpSegment sender dev data len n).Agree Net.Alike (icmpSegment sender dev data' len n') := by
  dsimp only [icmpSegment]
  split
  · exact .ok h
  · next hlong =>
    have hlong : 8 ≤ len.toNat := BitVec.le_def.mp (BitVec.not_lt.mp hlong)
    have agree := hdata hlong
    rw [← agree 0 (Nat.le_refl 0) (by omega), ← agree.read (by omega), ← agree.read (by omega)]
    split
    · refine .bind (ipSbuffAlloc_agree h len) ?_
      rintro ⟨buf, n₁⟩ ⟨buf', n₁'⟩ ⟨same, total, hhead, h₁⟩
      have same : (addRef buf).SameOn ∅ (addRef buf') := ⟨same.totalSize, same.head, same.data⟩
      have hhead : (addRef buf).head = 34 := hhead
      have hfields := pongFields_sameOn same.data 34 (data.read 4 2) (data.read 6 2) agree
      rw [same.head, hhead]
      refine .bind (same.store hfields 34 len.toNat 34 len.toNat) fun t t' stored => ?_
      refine .bind (ipSend_agree h₁ stored.same (stored.head.trans hhead) 1 sender dev
        fun x hlow hx => ?_) fun r r' h₂ => releaseRef_agree h₂ t t'
      have hx : x < 34 + len.toNat := by
        have htotal : buf.totalSize.toNat ≤ _ := total
        rw [stored.totalSize] at hx
        change x < buf.totalSize.toNat at hx
        omega
      by_cases hsum : 36 ≤ x ∧ x < 38
      · exact Or.inr (Or.inl ⟨rfl, hsum⟩)
      · exact Or.inl ⟨Or.inr ⟨hlow, hx⟩, hsum⟩
    · exact .ok h

/-- The payload and the header are the same, and with them the checksum. -/
theorem udpFields_sameOn {S : Set Nat} {m m' : ByteMem} (h : ByteMem.SameOn S m m') (head : Nat)
    (srcPort dstPort : BitVec 16) (size : BitVec 32)
    (hpayload : Set.Ico (head + 8) (head + 8 + size.toNat) ⊆ S) :
    ByteMem.SameOn (S ∪ Set.Ico head (head + 8)) (udpFields head srcPort dstPort size m)
      (udpFields head srcPort dstPort size m') := by
  have hfields := (((h.start head).append 2 (ntos srcPort)).append 2 (ntos dstPort)).append 2
    (ntos (size.setWidth 16))
  refine (checksum_sameOn hfields head size.toNat (head + 6) fun x hlo hhi => ?_).mono ?_
  · by_cases hlt : x < head + 8
    · by_cases hsum : x < head + 6
      · exact Or.inl (Or.inr ⟨hlo, hsum⟩)
      · exact Or.inr ⟨Nat.le_of_not_lt hsum, hlt⟩
    · exact Or.inl (Or.inl (hpayload ⟨Nat.le_of_not_lt hlt, by omega⟩))
  · rintro x (hx | ⟨hlo, hhi⟩)
    · exact Or.inl (Or.inl hx)
    · by_cases hsum : x < head + 6
      · exact Or.inl (Or.inr ⟨hlo, hsum⟩)
      · exact Or.inr ⟨Nat.le_of_not_lt hsum, hhi⟩

theorem udpSend_agree (h : n.Alike n') (quad : UdpQuad) {data data' : ByteMem} {size : BitVec 32}
    (hdata : ByteMem.AgreeOn 0 size.toNat data data') :
    (udpSend quad data size n).Agree (fun r r' => r.2.Alike r'.2)
      (udpSend quad data' size n') := by
  refine .bind (R := Allotted (size.toNat + 42) 42) ?_ ?_
  · refine .bind (ipSbuffAlloc_agree h ((size + 8).setWidth 16)) ?_
    rintro ⟨p, n₁⟩ ⟨p', n₁'⟩ ⟨same, total, hhead, h₁⟩
    refine .bind (sbuffPush_agree same 8) fun t t' moved => .ok ⟨moved.same, ?_, ?_, h₁⟩
    · have total : p.totalSize.toNat ≤ _ := total
      have hsum : ((size + 8).setWidth 16).toNat ≤ size.toNat + 8 := by
        rw [BitVec.toNat_setWidth, BitVec.toNat_add]
        exact (Nat.mod_le _ _).trans (Nat.mod_le _ _)
      change t.totalSize.toNat ≤ _
      rw [moved.totalSize]
      change p.totalSize.toNat ≤ _
      omega
    · have hhead : p.head = 34 := hhead
      rw [moved.head, hhead]
      rfl
  · rintro ⟨sb, n₁⟩ ⟨sb', n₁'⟩ ⟨same, total, hhead, h₁⟩
    have hhead : sb.head = 42 := hhead
    have hpayload := same.data.copy 42 0 size.toNat hdata
    have hsame : sb'.head = sb.head := same.head
    have hdevices : n₁'.ipDevices = n₁.ipDevices := h₁.ipDevices
    dsimp only
    rw [hsame, hhead]
    refine .bind (same.store hpayload 42 size.toNat 42 size.toNat) fun s s' stored => ?_
    have hresolve : ipResolveLocal quad.srcAddr n₁' = ipResolveLocal quad.srcAddr n₁ :=
      congrArg (mapLookup · (ntol quad.srcAddr)) hdevices
    rw [hresolve]
    refine .bind (R := Eq) (fun a c ha hc => Except.ok.inj (ha.symm.trans hc)) ?_
    rintro dev _ rfl
    cases dev with
    | none => exact .ok h₁
    | some dev =>
        refine .bind (sbuffPop_agree stored.same 8) fun t t' moved => ?_
        have htop : t.head = 34 := by
          rw [moved.head, stored.head, hhead]
          rfl
        have hfields := udpFields_sameOn moved.same.data 34 quad.srcPort quad.dstPort
          size fun x hx => Or.inr hx
        rw [moved.same.head, htop]
        refine .bind (moved.same.store hfields 34 8 34 8) fun u u' stored' => ?_
        refine ipSend_agree h₁ stored'.same (stored'.head.trans htop) 17 quad.dstAddr dev
          fun x hlow hx => Or.inl ?_
        have hx : x < 42 + size.toNat := by
          have htotal : sb.totalSize.toNat ≤ _ := total
          rw [stored'.totalSize, moved.totalSize, stored.totalSize] at hx
          change x < sb.totalSize.toNat at hx
          omega
        by_cases hlt : x < 42
        · exact Or.inr ⟨hlow, hlt⟩
        · exact Or.inl (Or.inr ⟨Nat.le_of_not_lt hlt, hx⟩)

/-! ## The applications -/

/-- The same call with the same data. -/
inductive AppCall.Alike : AppCall → AppCall → Prop where
  | tcpSend {data data' : ByteMem} {sz : BitVec 16} : ByteMem.AgreeOn 0 sz.toNat data data' →
      AppCall.Alike (.tcpSend data sz) (.tcpSend data' sz)
  | tcpClose : AppCall.Alike .tcpClose .tcpClose

structure UdpCall.Alike (c c' : UdpCall) : Prop where
  quad : c'.quad = c.quad
  size : c'.size = c.size
  data : ByteMem.AgreeOn 0 c.size.toNat c.data c'.data

section

variable (A : σ → σ → Prop)

/-- The calls of a read function depend on the data that it is given and on nothing else;
`A` relates the states of the applications. -/
def SecureRead (f : TcpReadFn σ) : Prop :=
  ∀ app app' heap heap' data data' sz, A app app' → ByteMem.AgreeOn 0 sz.toNat data data' →
    A (f app heap data sz).1 (f app' heap' data' sz).1 ∧
      List.Forall₂ AppCall.Alike (f app heap data sz).2 (f app' heap' data' sz).2

def SecureAccept (accept : σ → σ × TcpReadFn σ) : Prop :=
  ∀ app app', A app app' → A (accept app).1 (accept app').1 ∧ (accept app').2 = (accept app).2 ∧
    SecureRead A (accept app).2

def SecureNotify (cb : UdpNotify σ) : Prop :=
  ∀ app app' quad data data' sz, A app app' → ByteMem.AgreeOn 0 sz.toNat data data' →
    A (cb app quad data sz).1 (cb app' quad data' sz).1 ∧
      List.Forall₂ UdpCall.Alike (cb app quad data sz).2 (cb app' quad data' sz).2

/-- What a frame leaves behind, as far as the output is concerned. -/
structure Kernel.Out (k k' : Kernel σ) : Prop where
  net : k.net.Alike k'.net
  app : A k.app k'.app

end

variable {A : σ → σ → Prop} {k k' : Kernel σ}

theorem udpCalls_agree (h : n.Alike n') {calls calls' : List UdpCall}
    (hcalls : List.Forall₂ UdpCall.Alike calls calls') :
    (udpCalls calls n).Agree Net.Alike (udpCalls calls' n') := by
  induction hcalls generalizing n n' with
  | nil => exact .ok h
  | @cons c c' calls calls' hc _ ih =>
      rw [udpCalls, udpCalls, hc.quad, hc.size]
      exact .bind (udpSend_agree h c.quad hc.data) fun r r' h₁ => ih h₁

theorem udpNotify_agree (h : k.Out A k') (dev : NetDevice) {data data' : ByteMem}
    (srcIp : BitVec 32) {ports : List (UdpListeningPort σ)}
    (secure : ∀ p ∈ ports, SecureNotify A p.cb) (hheader : ByteMem.AgreeOn 0 8 data data')
    (hdata : ∀ p ∈ ports, ntos (data.read 2 2) = p.port →
      ByteMem.AgreeOn 0 (8 + (ntos (data.read 4 2)).toNat) data data') :
    (udpNotify dev data srcIp ports k).Agree (Kernel.Out A)
      (udpNotify dev data' srcIp ports k') := by
  induction ports generalizing k k' with
  | nil => exact .ok h
  | cons p ports ih =>
      obtain ⟨hp, hports⟩ := List.forall_mem_cons.mp secure
      obtain ⟨hpdata, hdata⟩ := List.forall_mem_cons.mp hdata
      simp only [udpNotify]
      rw [← hheader.read (a := 0) (k := 2) (by decide),
        ← hheader.read (a := 2) (k := 2) (by decide),
        ← hheader.read (a := 4) (k := 2) (by decide)]
      split
      · next hport =>
        have hsize : ((ntos (data.read 4 2)).setWidth 32).toNat = (ntos (data.read 4 2)).toNat :=
          BitVec.toNat_setWidth_of_le (by decide)
        have agree := (hpdata hport).shift 8
        rw [Nat.add_sub_cancel_left, ← hsize] at agree
        obtain ⟨happ, hcalls⟩ := hp k.app k'.app
          ⟨srcIp, ntol dev.ip, ntos (data.read 0 2), ntos (data.read 2 2)⟩ _ _ _ h.app agree
        refine .bind (udpCalls_agree h.net hcalls) fun n₁ n₁' h₁ => ?_
        exact ih ⟨h₁, happ⟩ hports hdata
      · exact ih h hports hdata

/-! ## TCP segments -/

theorem TcpHdr.store_sameOn {S : Set Nat} {m m' : ByteMem} (h : ByteMem.SameOn S m m')
    (hdr : TcpHdr) (a : Nat) :
    ByteMem.SameOn (S ∪ Set.Ico a (a + 18)) (hdr.store a m) (hdr.store a m') :=
  ((((((((h.start a).append 2 _).append 2 _).append 4 _).append 4 _).append 1 _).append 1
    _).append 2
    _).append 2 _

/-- Nothing is known of the checksum, as the last two bytes of the header are never stored. -/
theorem tcpChecksum_agree {S : Set Nat} {sb sb' : SBuff} (same : sb.SameOn S sb')
    (hhead : sb.head = 34) (len : BitVec 16) (src dest : BitVec 32) :
    (tcpChecksum sb len src dest).Agree (fun t t' => t.SameOn (S \ Set.Ico 50 52) t' ∧
      t.totalSize = sb.totalSize ∧ t.head = 34) (tcpChecksum sb' len src dest) := by
  have hpseudo := (((((same.data.start 22).append 4 (ntol src)).append 4 (ntol dest)).append 1
    0).append 1 6).append 2 (ntos len)
  have hsum := (checksum_sameOn_diff hpseudo 22 (12 + len.toNat) 50).mono
    fun x (hx : x ∈ S \ Set.Ico 50 52) => ⟨Or.inl hx.1, hx.2⟩
  dsimp only [tcpChecksum]
  rw [same.head, hhead]
  exact (same.store hsum 22 30 22 30).mono fun t t' stored =>
    ⟨stored.same, stored.totalSize, stored.head.trans hhead⟩

theorem sendSegment_agree (h : n.Alike n') {sb sb' : SBuff} (same : sb.SameOn ∅ sb')
    (hhead : sb.head = 34) (hdr : TcpHdr) {data data' : ByteMem} {sz : BitVec 16}
    (htotal : sb.totalSize.toNat ≤ 54 + sz.toNat) (hdata : ByteMem.AgreeOn 0 sz.toNat data data')
    (dest : BitVec 32) (dev : NetDevice) :
    (sendSegment sb hdr data sz dest dev n).Agree Net.Alike
      (sendSegment sb' hdr data' sz dest dev n') := by
  have hfields := TcpHdr.store_sameOn same.data hdr 34
  unfold sendSegment
  rw [same.head, hhead]
  refine .bind (same.store hfields 34 20 34 20) fun t t' stored => ?_
  have htop : t.head = 34 := stored.head.trans hhead
  rw [stored.same.head, htop]
  refine .bind (stored.same.store (stored.same.data.copy 54 0 sz.toNat hdata) 54 sz.toNat 54
    sz.toNat) fun u u' copied => ?_
  refine .bind (tcpChecksum_agree copied.same (copied.head.trans htop) (20 + sz) dev.ip dest) ?_
  rintro v v' ⟨same', htotal', htop'⟩
  refine .bind (ipSend_agree h same' htop' 6 dest dev fun x hlow hx => ?_) fun r r' h₁ => .ok h₁
  rw [htotal', copied.totalSize, stored.totalSize] at hx
  by_cases hloose : 50 ≤ x ∧ x < 54
  · exact Or.inr (Or.inr ⟨rfl, hloose⟩)
  · refine Or.inl ⟨?_, fun hsum => hloose ⟨hsum.1, hsum.2.trans (by decide)⟩⟩
    by_cases hlt : x < 52
    · exact Or.inl (Or.inr ⟨hlow, hlt⟩)
    · exact Or.inr ⟨by omega, by omega⟩

theorem transmitSegment_agree (h : n.Alike n') (hdr : TcpHdr) {data data' : ByteMem}
    {sz : BitVec 16} (hdata : ByteMem.AgreeOn 0 sz.toNat data data') (dest : BitVec 32)
    (dev : NetDevice) :
    (transmitSegment hdr data sz dest dev n).Agree Net.Alike
      (transmitSegment hdr data' sz dest dev n') := by
  refine .bind (ipSbuffAlloc_agree h (20 + sz)) ?_
  rintro ⟨sb, n₁⟩ ⟨sb', n₁'⟩ ⟨same, total, hhead, h₁⟩
  have htotal : sb.totalSize.toNat ≤ 54 + sz.toNat := by
    have hsum : (20 + sz).toNat ≤ 20 + sz.toNat := toNat_add_le 20 sz
    have total : sb.totalSize.toNat ≤ _ := total
    omega
  exact sendSegment_agree h₁ same hhead hdr htotal hdata dest dev

/-- A segment without payload. -/
theorem transmitSegment_agree_empty (h : n.Alike n') (hdr : TcpHdr) (data : ByteMem)
    (dest : BitVec 32) (dev : NetDevice) :
    (transmitSegment hdr data 0 dest dev n).Agree Net.Alike
      (transmitSegment hdr data 0 dest dev n') :=
  transmitSegment_agree h hdr (fun _ _ _ => rfl) dest dev

/-- The record is the same as far as what is sent depends on it. -/
inductive Stream.Alike (s : Stream σ) : Stream σ → Prop where
  | intro (addr : Nat) (pendingAck : BitVec 32) (readBuf : ByteMem) :
      ByteMem.AgreeOn 0 s.readOffset.toNat s.readBuf readBuf →
      Stream.Alike s { s with addr := addr, pendingAck := pendingAck, readBuf := readBuf }

/-- Both kernels have the same streams, of services that are secure. -/
structure Kernel.Alike (A : σ → σ → Prop) (k k' : Kernel σ) : Prop where
  out : k.Out A k'
  streams : List.Forall₂ Stream.Alike k.allStreams k'.allStreams
  secure : ∀ s ∈ k.allStreams, s.readMax = maxReadBuffer ∧ SecureRead A s.readFn

variable {s s' : Stream σ}

theorem resetStream_agree (h : k.Alike A k') (dev : NetDevice) (hdr : TcpHdr) (srcIp : BitVec 32) :
    (resetStream dev hdr srcIp k).Agree (Kernel.Alike A) (resetStream dev hdr srcIp k') := by
  rw [resetStream_eq, resetStream_eq]
  exact .bind (transmitSegment_agree_empty h.out.net _ _ srcIp dev) fun n n' h₁ =>
    .ok ⟨⟨h₁, h.out.app⟩, h.streams, h.secure⟩

theorem connected_agree (h : k.Alike A k') (dev : NetDevice) (localPort remotePort : BitVec 16)
    (remoteAddr ackSeq : BitVec 32) {fn : TcpReadFn σ} (secure : SecureRead A fn) :
    (connected dev localPort remotePort remoteAddr ackSeq fn k).Agree (Kernel.Alike A)
      (connected dev localPort remotePort remoteAddr ackSeq fn k') := by
  refine .bind (ipSbuffAlloc_agree h.out.net 20) ?_
  rintro ⟨sb, n₁⟩ ⟨sb', n₁'⟩ ⟨same, total, hhead, h₁⟩
  have htotal : sb.totalSize.toNat ≤ 54 + (0 : BitVec 16).toNat := total
  have h₂ : n₁.kmemAlloc.2.Alike n₁'.kmemAlloc.2 := ⟨h₁.table, h₁.ipDevices, h₁.sent⟩
  refine .bind (sendSegment_agree h₂ same hhead _ htotal (fun _ _ _ => rfl) remoteAddr dev)
    fun n₃ n₃' h₃ => .ok ⟨⟨h₃, h.out.app⟩, .cons ?_ h.streams,
      List.forall_mem_cons.mpr ⟨⟨rfl, secure⟩, h.secure⟩⟩
  exact .intro _ _ _ fun x _ hx => absurd hx (Nat.not_lt_zero x)

theorem syn_agree (h : k.Alike A k') (hlisteners : k'.allListeners = k.allListeners)
    (secure : ∀ l ∈ k.allListeners, SecureAccept A l.accept) (dev : NetDevice) (hdr : TcpHdr)
    (srcIp : BitVec 32) :
    (syn dev hdr srcIp k).Agree (Kernel.Alike A) (syn dev hdr srcIp k') := by
  unfold syn
  rw [hlisteners]
  split
  · exact resetStream_agree h dev hdr srcIp
  · next l hl =>
    obtain ⟨happ, hfn, hread⟩ := secure l (List.mem_of_find?_eq_some hl) _ _ h.out.app
    dsimp only
    rw [hfn]
    refine connected_agree ?_ dev _ _ srcIp _ hread
    exact ⟨⟨h.out.net, happ⟩, h.streams, h.secure⟩

/-- The stream and the kernel after a call of the application. -/
structure Called (A : σ → σ → Prop) (s : Stream σ) (r r' : Stream σ × Kernel σ) : Prop where
  stream : r.1.Alike r'.1
  readFn : r.1.readFn = s.readFn
  out : r.2.Out A r'.2

theorem appCalls_agree (h : k.Out A k') (hs : s.Alike s') {calls calls' : List AppCall}
    (hcalls : List.Forall₂ AppCall.Alike calls calls') :
    (appCalls s calls k).Agree (Called A s) (appCalls s' calls' k') := by
  induction hcalls generalizing s s' k k' with
  | nil => exact .ok ⟨hs, rfl, h⟩
  | cons hc _ ih =>
      obtain ⟨addr, pendingAck, readBuf, hbuf⟩ := hs
      rw [appCalls_cons, appCalls_cons]
      cases hc with
      | tcpSend hdata =>
          refine .bind (transmitSegment_agree h.net _ hdata _ _) fun n n' h₁ => ?_
          refine Except.Agree.mono (ih ⟨h₁, h.app⟩ (.intro addr pendingAck readBuf hbuf)) ?_
          exact fun r r' called => ⟨called.stream, called.readFn, called.out⟩
      | tcpClose =>
          refine .bind (transmitSegment_agree_empty h.net _ _ _ _) fun n n' h₁ => ?_
          refine Except.Agree.mono (ih ⟨h₁, h.app⟩ (.intro addr pendingAck readBuf hbuf)) ?_
          exact fun r r' called => ⟨called.stream, called.readFn, called.out⟩

/-! ## Serving a stream -/

/-- What a phase of `tcp_segment` leaves behind. -/
structure Phase (A : σ → σ → Prop) (r r' : Option (Stream σ) × Kernel σ) : Prop where
  stream : Option.Rel Stream.Alike r.1 r'.1
  secure : ∀ s, r.1 = some s → SecureRead A s.readFn
  out : r.2.Out A r'.2

theorem removeStream_agree (h : k.Out A k') (s s' : Stream σ) :
    (removeStream s k).Agree (Kernel.Out A) (removeStream s' k') :=
  .bind (kmemFree_agree h.net _ _) fun _ _ h₁ => .ok ⟨h₁, h.app⟩

theorem acked_agree (h : k.Out A k') (hs : s.Alike s') (secure : SecureRead A s.readFn)
    (hdr : TcpHdr) :
    (acked s hdr k).Agree (fun r r' => Phase A r r' ∧ ∀ t, r.1 = some t → t.readMax = s.readMax)
      (acked s' hdr k') := by
  obtain ⟨addr, pendingAck, readBuf, hbuf⟩ := hs
  rw [acked_eq, acked_eq]
  change Except.Agree _ _ (if s.state = .lastAck then _ else _)
  split
  · exact .bind (removeStream_agree h _ _) fun _ _ h₁ =>
      .ok ⟨⟨.none, fun _ h => (nomatch h), h₁⟩, fun _ h => (nomatch h)⟩
  · refine .ok ⟨⟨.some ?_, fun t ht => Option.some.inj ht ▸ secure, h⟩, fun t ht => ?_⟩
    · exact .intro addr _ readBuf hbuf
    · rw [← Option.some.inj ht]
      rfl

theorem bufferData_agree {p p' : Option (Stream σ)} (hp : Option.Rel Stream.Alike p p')
    (hdr : TcpHdr) {data data' : ByteMem} {len : BitVec 32}
    (hdata : ∀ s, p = some s → len.toNat ≤ s.readMax.toNat →
      ByteMem.AgreeOn (4 * hdr.offset.toNat) len.toNat data data') :
    (bufferData hdr data p len).Agree
      (fun q q' => Option.Rel Stream.Alike q q' ∧ q.map Stream.readFn = p.map Stream.readFn)
      (bufferData hdr data' p' len) := by
  unfold bufferData
  split
  · exact .ok ⟨hp, rfl⟩
  · cases hp with
    | none => exact .error_left
    | some hs =>
        obtain ⟨addr, pendingAck, readBuf, hbuf⟩ := hs
        change Except.Agree _ (if _ then _ else _) (if _ then _ else _)
        split
        · exact .ok ⟨.some (.intro addr pendingAck readBuf hbuf), rfl⟩
        · split
          · exact .error_left
          · next s _ hin =>
            have agree := hdata s rfl (by omega)
            refine .ok ⟨.some (.intro addr pendingAck _ fun x _ hx => ?_), rfl⟩
            have hsum : (s.readOffset + len).toNat ≤ s.readOffset.toNat + len.toNat := by
              rw [BitVec.toNat_add]
              exact Nat.mod_le _ _
            have hx : x < 0 + (s.readOffset + len).toNat := hx
            dsimp only [ByteMem.copy]
            split
            · exact agree _ (Nat.le_add_right _ _) (by omega)
            · exact hbuf x (Nat.zero_le x) (by omega)

theorem pushit_agree {p p' : Option (Stream σ)} (h : Phase A (p, k) (p', k')) :
    (pushit p k).Agree (Phase A) (pushit p' k') := by
  obtain ⟨hp, secure, out⟩ := h
  cases hp with
  | none => exact .error_left
  | some hs =>
      obtain ⟨addr, pendingAck, readBuf, hbuf⟩ := hs
      next s =>
      obtain ⟨happ, hcalls⟩ := secure s rfl k.app k'.app (k.net.junk k.net.next)
        (k'.net.junk k'.net.next) s.readBuf readBuf s.readOffset out.app hbuf
      change Except.Agree _ (appCalls s _ _ >>= _) (appCalls _ _ _ >>= _)
      refine .bind (appCalls_agree (A := A) ?_ (.intro addr pendingAck readBuf hbuf) hcalls) ?_
      · exact ⟨⟨out.net.table, out.net.ipDevices, out.net.sent⟩, happ⟩
      rintro ⟨t, k₁⟩ ⟨t', k₁'⟩ ⟨ht, hfn, out₁⟩
      obtain ⟨addr', pendingAck', readBuf', _⟩ := ht
      refine .ok ⟨.some (.intro addr' pendingAck' readBuf' fun x _ hx => ?_), ?_, out₁⟩
      · exact absurd hx (Nat.not_lt_zero x)
      · rintro _ ⟨⟩
        exact hfn ▸ secure s rfl

theorem fin_agree {p p' : Option (Stream σ)} (h : Phase A (p, k) (p', k')) (dev : NetDevice) :
    (fin dev p k).Agree (Phase A) (fin dev p' k') := by
  obtain ⟨hp, secure, out⟩ := h
  cases hp with
  | none => exact .error_left
  | some hs =>
      obtain ⟨addr, pendingAck, readBuf, hbuf⟩ := hs
      next s =>
      by_cases hwait : s.state = .finWait2
      · rw [fin_finWait2 _ _ dev hwait, fin_finWait2 _ _ dev (by exact hwait)]
        refine .bind (transmitSegment_agree_empty out.net _ _ _ dev) fun n n' h₁ => ?_
        refine .bind (R := Kernel.Out A) (removeStream_agree ?_ _ _) fun _ _ out₁ =>
          .ok ⟨.none, fun _ h => (nomatch h), out₁⟩
        exact ⟨h₁, out.app⟩
      · by_cases hest : s.state = .established
        · rw [fin_established _ _ dev hest, fin_established _ _ dev (by exact hest)]
          refine .bind (transmitSegment_agree_empty out.net _ _ _ dev) fun n n' h₁ =>
            .ok ⟨.some (.intro addr pendingAck readBuf hbuf), ?_, h₁, out.app⟩
          rintro _ ⟨⟩
          exact secure s rfl
        · rw [fin_other _ _ dev hwait hest, fin_other _ _ dev (by exact hwait) (by exact hest)]
          exact .ok ⟨.some (.intro addr pendingAck readBuf hbuf), secure, out⟩

theorem find_alike {l l' : List (Stream σ)} (h : List.Forall₂ Stream.Alike l l')
    (dev : NetDevice) (src : BitVec 32) (hdr : TcpHdr) :
    Option.Rel Stream.Alike (find dev src hdr l) (find dev src hdr l') := by
  induction h with
  | nil => exact .none
  | @cons s s' l l' hs _ ih =>
      have hfor : s'.isFor dev src hdr = s.isFor dev src hdr := by cases hs; rfl
      rw [find, find, List.find?_cons, List.find?_cons, hfor]
      cases s.isFor dev src hdr
      · exact ih
      · exact .some hs

theorem TcpHdr.load_congr {m m' : ByteMem} (h : ByteMem.AgreeOn 0 20 m m') :
    TcpHdr.load m' = TcpHdr.load m := by
  have hbyte : ∀ x < 20, m x = m' x := fun x hx => h x (Nat.zero_le x) (by omega)
  rw [TcpHdr.load, TcpHdr.load, h.read (by decide), h.read (by decide), h.read (by decide),
    h.read (by decide), h.read (by decide), h.read (by decide), hbyte 12 (by decide),
    hbyte 13 (by decide)]

theorem serve_agree (h : k.Out A k') (hs : s.Alike s') (secure : SecureRead A s.readFn)
    (dev : NetDevice) {data data' : ByteMem} (sz : BitVec 32)
    (hheader : ByteMem.AgreeOn 0 20 data data')
    (hdata : (payloadLen (.load data) sz).toNat ≤ s.readMax.toNat →
      ByteMem.AgreeOn (4 * (TcpHdr.load data).offset.toNat) (payloadLen (.load data) sz).toNat
        data data') :
    (serve dev data sz s k).Agree (Kernel.Out A) (serve dev data' sz s' k') := by
  have hhdr : TcpHdr.load data' = TcpHdr.load data := TcpHdr.load_congr hheader
  unfold serve
  rw [hhdr]
  dsimp only
  generalize TcpHdr.load data = hdr at hdata ⊢
  have start : Phase A (some s, k) (some s', k') :=
    ⟨.some hs, fun t ht => Option.some.inj ht ▸ secure, h⟩
  refine .bind (R := fun r r' => Phase A r r' ∧ ∀ t, r.1 = some t → t.readMax = s.readMax) ?_ ?_
  · split
    · exact acked_agree h hs secure hdr
    · exact .ok ⟨start, fun t ht => by rw [← Option.some.inj ht]⟩
  · rintro ⟨p, k₁⟩ ⟨p', k₁'⟩ ⟨phase, hmax⟩
    refine .bind (bufferData_agree phase.stream hdr fun t ht hlen => hdata (hmax t ht ▸ hlen)) ?_
    rintro q q' ⟨hq, hfn⟩
    have phase₂ : Phase A (q, k₁) (q', k₁') := by
      refine ⟨hq, fun t ht => ?_, phase.out⟩
      have ht : q = some t := ht
      rw [ht] at hfn
      obtain ⟨u, hu, hut⟩ := Option.map_eq_some_iff.mp hfn.symm
      exact hut ▸ phase.secure u hu
    refine .bind (R := Phase A) ?_ ?_
    · split
      · exact pushit_agree phase₂
      · exact .ok phase₂
    · rintro ⟨q₃, k₃⟩ ⟨q₃', k₃'⟩ phase₃
      refine .bind (R := Phase A) ?_ ?_
      · split
        · exact fin_agree phase₃ dev
        · exact .ok phase₃
      · rintro ⟨q₄, k₄⟩ ⟨q₄', k₄'⟩ phase₄
        refine .ok ?_
        obtain ⟨hq₄, _, net, app⟩ := phase₄
        cases hq₄ <;> exact ⟨⟨net.table, net.ipDevices, net.sent⟩, app⟩

/-- The payload has to be among what agrees if it can be buffered at all. -/
theorem tcpSegment_agree (h : k.Alike A k') (hlisteners : k'.allListeners = k.allListeners)
    (secure : ∀ l ∈ k.allListeners, SecureAccept A l.accept) (dev : NetDevice)
    {data data' : ByteMem} (sz srcIp : BitVec 32) (hheader : ByteMem.AgreeOn 0 20 data data')
    (hdata : (payloadLen (.load data) sz).toNat ≤ 2048 →
      ByteMem.AgreeOn (4 * (TcpHdr.load data).offset.toNat) (payloadLen (.load data) sz).toNat
        data data') :
    (tcpSegment dev data sz srcIp k).Agree (Kernel.Out A) (tcpSegment dev data' sz srcIp k') := by
  have hhdr := TcpHdr.load_congr hheader
  unfold tcpSegment
  rw [hhdr]
  dsimp only
  refine .bind (R := Kernel.Alike A) ?_ fun k₁ k₁' h₁ => ?_
  · split
    · exact syn_agree h hlisteners secure dev _ srcIp
    · exact .ok h
  · have hfind := find_alike h₁.streams dev srcIp (.load data)
    have hmem : ∀ s, find dev srcIp (.load data) k₁.allStreams = some s → s ∈ k₁.allStreams :=
      fun _ => List.mem_of_find?_eq_some
    generalize find dev srcIp (.load data) k₁.allStreams = p at hfind hmem ⊢
    generalize find dev srcIp (.load data) k₁'.allStreams = p' at hfind ⊢
    cases hfind with
    | none => exact (resetStream_agree h₁ dev _ srcIp).mono fun _ _ h₂ => h₂.out
    | some hs =>
        obtain ⟨hmax, hread⟩ := h₁.secure _ (hmem _ rfl)
        refine serve_agree h₁.out hs hread dev sz hheader fun hlen => hdata ?_
        rw [hmax] at hlen
        exact hlen

end BadOs
