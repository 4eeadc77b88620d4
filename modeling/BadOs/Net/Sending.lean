import BadOs.Net.Stream

/-!
# Sending succeeds

A buffer that was just allocated has room for the headers in front of its contents, so
that no check of `sbuff_push` and `sbuff_pop` fails, and it is freed once. The one
exception is a size so large that the sum with the headers wraps around.
-/

namespace BadOs

/-! ## The heap -/

/-- Everything that is allocated has an address below the next one. -/
def Net.Fresh (n : Net) : Prop := ∀ a ∈ n.live, a < n.next

/-- The tables are the same, and what was allocated stays allocated, but perhaps `p`. -/
structure Net.Sends (p : Nat) (n n' : Net) : Prop where
  same : n.SameTables n'
  fresh : n'.Fresh
  live : ∀ a ∈ n.live, a ≠ p → a ∈ n'.live

/-- The tables are the same, and what was allocated stays allocated. -/
structure Net.Grows (n n' : Net) : Prop where
  same : n.SameTables n'
  fresh : n'.Fresh
  live : ∀ a ∈ n.live, a ∈ n'.live

namespace Net

variable {n n' n'' : Net} {p : Nat}

theorem Grows.refl (fresh : n.Fresh) : n.Grows n := ⟨.refl n, fresh, fun _ h => h⟩

theorem Grows.trans (h : n.Grows n') (h' : n'.Grows n'') : n.Grows n'' :=
  ⟨h.same.trans h'.same, h'.fresh, fun a ha => h'.live a (h.live a ha)⟩

theorem Grows.sends (h : n.Grows n') (p : Nat) : n.Sends p n' :=
  ⟨h.same, h.fresh, fun a ha _ => h.live a ha⟩

theorem Sends.trans (h : n.Sends p n') (h' : n'.Sends p n'') : n.Sends p n'' :=
  ⟨h.same.trans h'.same, h'.fresh, fun a ha hap => h'.live a (h.live a ha hap) hap⟩

theorem kmemAlloc_mem (n : Net) : n.next ∈ n.kmemAlloc.2.live := List.mem_cons_self

theorem kmemAlloc_grows (fresh : n.Fresh) : n.Grows n.kmemAlloc.2 := by
  refine ⟨kmemAlloc_sameTables n, fun a ha => ?_, fun a ha => List.mem_cons_of_mem _ ha⟩
  obtain rfl | ha := List.mem_cons.mp ha
  · exact Nat.lt_succ_self _
  · exact (fresh a ha).trans (Nat.lt_succ_self _)

/-- What is sent in a new buffer leaves everything else allocated. -/
theorem Sends.grows (fresh : n.Fresh) (h : n.kmemAlloc.2.Sends n.next n') : n.Grows n' := by
  refine ⟨(kmemAlloc_sameTables n).trans h.same, h.fresh, fun a ha => ?_⟩
  exact h.live a (List.mem_cons_of_mem _ ha) (fresh a ha).ne

theorem kmemFree_total (fresh : n.Fresh) (hp : p ∈ n.live) :
    (n.kmemFree p).Total fun n' => n.Sends p n' := by
  unfold kmemFree
  rw [if_pos hp]
  refine .ok ⟨⟨rfl, rfl, rfl, Nat.le_refl _⟩, fun a ha => fresh a (List.mem_of_mem_erase ha),
    fun a ha hap => (List.mem_erase_of_ne hap).mpr ha⟩

end Net

/-! ## Buffers -/

/-- A new buffer of `size` bytes whose contents start at `head`. -/
structure NewBuffer (n : Net) (size head : Nat) (r : SBuff × Net) : Prop where
  net : r.2 = n.kmemAlloc.2
  addr : r.1.addr = n.next
  totalSize : r.1.totalSize.toNat = size
  head : r.1.head = head
  refs : r.1.refs = 0
  data : r.1.data = n.junk n.next

namespace NewBuffer

variable {n : Net} {size head : Nat} {r : SBuff × Net}

theorem raw (n : Net) (size : BitVec 16) : NewBuffer n size.toNat 0 (rawSbuffAlloc size n) :=
  ⟨rfl, rfl, rfl, rfl, rfl, rfl⟩

/-- A header in front of the contents. -/
theorem push (h : NewBuffer n size head r) {len : BitVec 16} (hroom : head + len.toNat ≤ size) :
    (sbuffPush r.1 len >>= fun sb => pure (sb, r.2)).Total
      (NewBuffer n size (head + len.toNat)) := by
  have hcurr := r.1.head_eq
  rw [h.totalSize, h.head] at hcurr
  have hlen : len.toNat ≤ r.1.currSize.toNat := by omega
  obtain ⟨sb, hpush, haddr, htotal, hhead, hrefs, hdata⟩ := sbuffPush_eq hlen
  refine ⟨(sb, r.2), Except.bind_eq_ok.mpr ⟨sb, hpush, rfl⟩, h.net, haddr.trans h.addr, ?_, ?_,
    hrefs.trans h.refs, hdata.trans h.data⟩
  · rw [htotal, h.totalSize]
  · rw [hhead, h.head]

theorem push_panic (h : NewBuffer n size head r) {len : BitVec 16}
    (hroom : size < head + len.toNat) :
    (sbuffPush r.1 len >>= fun sb => pure (sb, r.2)) = .error (.panic "net: sbuff overflow") := by
  have hcurr := r.1.head_eq
  rw [h.totalSize, h.head] at hcurr
  exact Except.bind_error (sbuffPush_panic (by omega))

theorem mem_live (h : NewBuffer n size head r) : r.1.addr ∈ r.2.live := by
  rw [h.addr, h.net]
  exact n.kmemAlloc_mem

theorem fresh (h : NewBuffer n size head r) (fresh : n.Fresh) : r.2.Fresh := by
  rw [h.net]
  exact (Net.kmemAlloc_grows fresh).fresh

theorem grows (h : NewBuffer n size head r) (fresh : n.Fresh) {n' : Net}
    (sends : r.2.Sends r.1.addr n') : n.Grows n' := by
  rw [h.addr, h.net] at sends
  exact sends.grows fresh

end NewBuffer

variable {n : Net}

theorem sbuffPush_total {s : SBuff} {size : BitVec 16} (h : size.toNat ≤ s.currSize.toNat) :
    (sbuffPush s size).Total fun s' => s'.addr = s.addr ∧ s'.totalSize = s.totalSize ∧
      s'.head = s.head + size.toNat ∧ s'.refs = s.refs ∧ s'.data = s.data :=
  sbuffPush_eq h

theorem sbuffPop_total {s : SBuff} {size : BitVec 16} (h : size.toNat ≤ s.head) :
    (sbuffPop s size).Total fun s' => s'.addr = s.addr ∧ s'.totalSize = s.totalSize ∧
      s'.head = s.head - size.toNat ∧ s'.refs = s.refs ∧ s'.data = s.data :=
  sbuffPop_eq h

/-- A store changes the contents of a buffer and nothing else. -/
structure SBuff.Same (s s' : SBuff) : Prop where
  addr : s'.addr = s.addr
  totalSize : s'.totalSize = s.totalSize
  head : s'.head = s.head
  refs : s'.refs = s.refs

theorem SBuff.store_total {s : SBuff} {off len : Nat} (h : off + len ≤ s.totalSize.toNat)
    (f : ByteMem → ByteMem) : (s.store off len f).Total s.Same :=
  ⟨_, store_eq h f, rfl, rfl, rfl, rfl⟩

theorem ethernetSbuffAlloc_total (n : Net) (size : BitVec 16) (h : size.toNat + 14 < 2 ^ 16) :
    (ethernetSbuffAlloc size n).Total (NewBuffer n (size.toNat + 14) 14) := by
  have hsize : (size + 14 : BitVec 16).toNat = size.toNat + 14 :=
    BitVec.toNat_add_of_lt h
  have b := NewBuffer.raw n (size + 14)
  rw [hsize] at b
  exact b.push (by change 0 + 14 ≤ _; omega)

theorem ipSbuffAlloc_total (n : Net) (size : BitVec 16) (h : size.toNat < 65502) :
    (ipSbuffAlloc size n).Total (NewBuffer n (size.toNat + 34) 34) := by
  have hsize : (size + 20 : BitVec 16).toNat = size.toNat + 20 :=
    BitVec.toNat_add_of_lt (by change _ + 20 < _; omega)
  refine .bind (ethernetSbuffAlloc_total n (size + 20) (by omega)) fun r b => ?_
  rw [hsize] at b
  exact b.push (by change 14 + 20 ≤ _; omega)

/-- The sums with the headers wrap around. -/
theorem ipSbuffAlloc_panic (n : Net) {size : BitVec 16} (h : 65502 ≤ size.toNat) :
    ipSbuffAlloc size n = .error (.panic "net: sbuff overflow") := by
  have hlt := size.isLt
  have hsize : (size + 20 : BitVec 16).toNat = (size.toNat + 20) % 65536 := BitVec.toNat_add _ _
  by_cases hwrap : size.toNat + 20 < 65536
  · have htotal : (size + 20 + 14 : BitVec 16).toNat =
        ((size + 20 : BitVec 16).toNat + 14) % 65536 := BitVec.toNat_add _ _
    have hroom : (size + 20 + 14 : BitVec 16).toNat < 0 + (14 : BitVec 16).toNat := by
      change _ < 0 + 14
      omega
    exact Except.bind_error ((NewBuffer.raw n (size + 20 + 14)).push_panic hroom)
  · refine Except.Total.bind_error (ethernetSbuffAlloc_total n (size + 20) (by omega)) fun r b => ?_
    exact b.push_panic (by change _ < 14 + 20; omega)

/-! ## Ethernet, ARP and IP -/

theorem releaseRef_total (fresh : n.Fresh) {s : SBuff} (hs : s.addr ∈ n.live) :
    (releaseRef s n).Total fun n' => n.Sends s.addr n' := by
  unfold releaseRef
  split
  · exact Net.kmemFree_total fresh hs
  · exact .ok ((Net.Grows.refl fresh).sends s.addr)

/-- A buffer that someone else refers to stays allocated when it is sent. -/
theorem deviceSend_total (fresh : n.Fresh) (device : NetDevice) {s : SBuff}
    (hs : s.addr ∈ n.live) :
    (deviceSend device s n).Total fun n' =>
      n.Sends s.addr n' ∧ (s.refs ≠ 0 → s.addr ∈ n'.live) := by
  have fresh' : Net.Fresh { n with sent := n.sent ++ [(device, s)] } := fresh
  have hrefs : (addRef s).refs - 1 = s.refs := BitVec.add_sub_cancel _ _
  unfold deviceSend releaseRef
  rw [hrefs]
  split
  · next hzero =>
    refine (Net.kmemFree_total fresh' hs).mono fun n' h => ?_
    exact ⟨⟨⟨h.same.table, h.same.ipDevices, h.same.junk, h.same.next⟩, h.fresh, h.live⟩,
      fun hne => absurd hzero hne⟩
  · refine .ok ⟨⟨⟨rfl, rfl, rfl, Nat.le_refl _⟩, fresh, fun a ha _ => ha⟩, fun _ => hs⟩

theorem ethernetSend_total (fresh : n.Fresh) {s : SBuff} (hs : s.addr ∈ n.live)
    (hhead : 14 ≤ s.head) (proto : BitVec 16) (dest : Mac) (device : NetDevice) :
    (ethernetSend s proto dest device n).Total fun n' =>
      n.Sends s.addr n' ∧ (s.refs ≠ 0 → s.addr ∈ n'.live) := by
  have hsize := s.head_eq
  refine .bind (sbuffPop_total hhead) ?_
  rintro s₁ ⟨haddr, htotal, hhead₁, hrefs, _⟩
  have hroom : s₁.head + 14 ≤ s₁.totalSize.toNat := by
    rw [htotal, hhead₁]
    change s.head - 14 + 14 ≤ _
    omega
  refine .bind (SBuff.store_total hroom _) fun s₂ same => ?_
  rw [← haddr, ← same.addr, ← hrefs, ← same.refs]
  exact deviceSend_total fresh device ((same.addr.trans haddr).symm ▸ hs)

/-- Sending a buffer that was given a reference, and releasing it. -/
theorem ethernetRelease_total (fresh : n.Fresh) {s : SBuff} (hs : s.addr ∈ n.live)
    (hhead : 14 ≤ s.head) (hrefs : s.refs ≠ 0) (proto : BitVec 16) (dest : Mac)
    (device : NetDevice) :
    (ethernetSend s proto dest device n >>= fun n => releaseRef s n).Total (n.Sends s.addr) := by
  refine .bind (ethernetSend_total fresh hs hhead proto dest device) ?_
  rintro n₁ ⟨sends, hlive⟩
  exact (releaseRef_total sends.fresh (hlive hrefs)).mono fun n₂ sends' => sends.trans sends'

theorem arpRequest_total (fresh : n.Fresh) (device : NetDevice) (targetIp : BitVec 32) :
    (arpRequest device targetIp n).Total n.Grows := by
  refine .bind (ethernetSbuffAlloc_total n 28 (by decide)) ?_
  rintro ⟨buf, n₁⟩ b
  have htotal : buf.totalSize.toNat = 42 := b.totalSize
  have hhead : buf.head = 14 := b.head
  have hrefs : (addRef buf).refs ≠ 0 := by
    change buf.refs + 1 ≠ 0
    rw [show buf.refs = 0 from b.refs]
    decide
  have hroom : (addRef buf).head + 28 ≤ (addRef buf).totalSize.toNat := by
    change buf.head + 28 ≤ buf.totalSize.toNat
    omega
  refine .bind (SBuff.store_total hroom _) fun s same => ?_
  have hs : s.addr ∈ n₁.live := same.addr.symm ▸ b.mem_live
  refine (ethernetRelease_total (b.fresh fresh) hs (same.head.trans hhead).ge
    (same.refs.symm ▸ hrefs) 0x0806 broadcastMac device).mono fun n₂ sends => ?_
  exact b.grows fresh (same.addr ▸ sends)

theorem reply_total (fresh : n.Fresh) (dev : NetDevice) (target : Mac) (ip : BitVec 32)
    (broadcast : Bool) : (reply dev target ip broadcast n).Total n.Grows := by
  have hpush : (14 : BitVec 16).toNat ≤ (addRef (rawSbuffAlloc 42 n).1).currSize.toNat := by
    change 14 ≤ (42 : BitVec 16).toNat
    decide
  refine .bind (sbuffPush_total hpush) ?_
  rintro buf ⟨haddr, htotal, hhead, hrefs, _⟩
  have hhead : buf.head = 14 := hhead
  have haddr : buf.addr = n.next := haddr
  have hrefs : buf.refs = 1 := hrefs
  have hroom : buf.head + 28 ≤ buf.totalSize.toNat := by
    rw [htotal, hhead]
    change 14 + 28 ≤ (42 : BitVec 16).toNat
    decide
  refine .bind (SBuff.store_total hroom _) fun s same => ?_
  have hs : s.addr ∈ n.kmemAlloc.2.live := by
    rw [same.addr, haddr]
    exact n.kmemAlloc_mem
  have hne : s.refs ≠ 0 := by
    rw [same.refs, hrefs]
    decide
  refine (ethernetRelease_total (Net.kmemAlloc_grows fresh).fresh hs (same.head.trans hhead).ge hne
    0x0806 (if broadcast then broadcastMac else target) dev).mono fun n₂ sends => ?_
  rw [same.addr, haddr] at sends
  exact sends.grows fresh

theorem arpLookup_total (fresh : n.Fresh) (dev : NetDevice) (ip : BitVec 32) :
    (arpLookup dev ip n).Total fun r => n.Grows r.2 := by
  unfold arpLookup
  split
  · exact .ok (.refl fresh)
  · exact .bind (arpRequest_total fresh dev ip) fun n' grows => .ok grows

/-- There is room for the IP and the Ethernet header in front of the packet. -/
theorem ipSend_total (fresh : n.Fresh) {s : SBuff} (hs : s.addr ∈ n.live) (hhead : s.head = 34)
    (proto : BitVec 8) (dest : BitVec 32) (device : NetDevice) :
    (ipSend s proto dest device n).Total fun r =>
      n.Sends s.addr r.2 ∧ (s.refs ≠ 0 → s.addr ∈ r.2.live) := by
  have hsize := s.head_eq
  have hpop : (20 : BitVec 16).toNat ≤ s.head := by
    rw [hhead]
    decide
  refine .bind (sbuffPop_total hpop) ?_
  rintro s₁ ⟨haddr, htotal, hhead₁, hrefs, _⟩
  have hhead₁ : s₁.head = 14 := by
    rw [hhead₁, hhead]
    rfl
  have hroom : s₁.head + 20 ≤ s₁.totalSize.toNat := by
    rw [htotal, hhead₁]
    omega
  refine .bind (SBuff.store_total hroom _) fun s₂ same => ?_
  have haddr₂ : s₂.addr = s.addr := same.addr.trans haddr
  refine .bind (arpLookup_total fresh device dest) ?_
  rintro ⟨mac, n₁⟩ grows
  have hs₂ : s₂.addr ∈ n₁.live := haddr₂.symm ▸ grows.live s.addr hs
  cases mac with
  | none => exact .ok ⟨grows.sends _, fun _ => grows.live _ hs⟩
  | some mac =>
      refine .bind (ethernetSend_total grows.fresh hs₂ (same.head.trans hhead₁).ge 0x0800 mac
        device) ?_
      rintro n₂ ⟨sends, hlive⟩
      rw [haddr₂, same.refs, hrefs] at hlive
      exact .ok ⟨(grows.sends _).trans (haddr₂ ▸ sends), hlive⟩

/-! ## TCP -/

variable {σ : Type}

theorem sendSegment_total (fresh : n.Fresh) {sb : SBuff} {sz : BitVec 16} (hs : sb.addr ∈ n.live)
    (hhead : sb.head = 34) (hsize : 54 + sz.toNat ≤ sb.totalSize.toNat) (hdr : TcpHdr)
    (data : ByteMem) (dest : BitVec 32) (dev : NetDevice) :
    (sendSegment sb hdr data sz dest dev n).Total (n.Sends sb.addr) := by
  have hroom : sb.head + 20 ≤ sb.totalSize.toNat := by omega
  refine .bind (SBuff.store_total hroom _) fun s₁ same₁ => ?_
  have hroom₁ : s₁.head + 20 + sz.toNat ≤ s₁.totalSize.toNat := by
    rw [same₁.head, same₁.totalSize]
    omega
  refine .bind (SBuff.store_total hroom₁ _) fun s₂ same₂ => ?_
  have hroom₂ : s₂.head - 12 + 30 ≤ s₂.totalSize.toNat := by
    rw [same₂.head, same₂.totalSize, same₁.head, same₁.totalSize]
    omega
  have hchecksum : (tcpChecksum s₂ (20 + sz) dev.ip dest).Total s₂.Same := by
    dsimp only [tcpChecksum]
    exact SBuff.store_total hroom₂ _
  refine .bind hchecksum fun s₃ same₃ => ?_
  have haddr : s₃.addr = sb.addr := (same₃.addr.trans same₂.addr).trans same₁.addr
  have hhead₃ : s₃.head = 34 := ((same₃.head.trans same₂.head).trans same₁.head).trans hhead
  refine .bind (ipSend_total fresh (haddr.symm ▸ hs) hhead₃ 6 dest dev) ?_
  rintro ⟨_, n₁⟩ ⟨sends, _⟩
  exact .ok (haddr ▸ sends)

/-- The size of a segment, unless it wraps around. -/
theorem segmentSize_toNat {sz : BitVec 16} (hsz : sz.toNat < 65516) :
    (20 + sz : BitVec 16).toNat = 20 + sz.toNat :=
  BitVec.toNat_add_of_lt (by change 20 + _ < _; omega)

theorem transmitSegment_total (fresh : n.Fresh) {sz : BitVec 16} (hsz : sz.toNat < 65482)
    (hdr : TcpHdr) (data : ByteMem) (dest : BitVec 32) (dev : NetDevice) :
    (transmitSegment hdr data sz dest dev n).Total n.Grows := by
  have hsize := segmentSize_toNat (hsz.trans (by decide))
  refine .bind (ipSbuffAlloc_total n (20 + sz) (by omega)) ?_
  rintro ⟨sb, n₁⟩ b
  have hroom : 54 + sz.toNat ≤ sb.totalSize.toNat := by
    have htotal : sb.totalSize.toNat = _ := b.totalSize
    omega
  refine (sendSegment_total (b.fresh fresh) b.mem_live b.head hroom hdr data dest dev).mono ?_
  exact fun n₂ sends => b.grows fresh sends

/-- The sum with the header wraps around, so that the segment is larger than its buffer. -/
theorem transmitSegment_outOfBounds {sz : BitVec 16} (hsz : 65516 ≤ sz.toNat) (hdr : TcpHdr)
    (data : ByteMem) (dest : BitVec 32) (dev : NetDevice) (n : Net) :
    transmitSegment hdr data sz dest dev n = .error .outOfBounds := by
  have hlt := sz.isLt
  have hsize : (20 + sz : BitVec 16).toNat = (20 + sz.toNat) % 65536 := BitVec.toNat_add _ _
  refine Except.Total.bind_error (ipSbuffAlloc_total n (20 + sz) (by omega)) ?_
  rintro ⟨sb, n⟩ b
  have hroom : ¬sb.head + sizeofTcpHdr ≤ sb.totalSize.toNat := by
    have htotal : sb.totalSize.toNat = _ := b.totalSize
    have hhead : sb.head = 34 := b.head
    change ¬_ + 20 ≤ _
    omega
  exact Except.bind_error (if_neg hroom)

theorem transmitSegment_panic {sz : BitVec 16} (hsz : 65482 ≤ sz.toNat) (hlt : sz.toNat < 65516)
    (hdr : TcpHdr) (data : ByteMem) (dest : BitVec 32) (dev : NetDevice) (n : Net) :
    transmitSegment hdr data sz dest dev n = .error (.panic "net: sbuff overflow") := by
  have hsize := segmentSize_toNat hlt
  exact Except.bind_error (ipSbuffAlloc_panic n (by change 65502 ≤ (20 + sz).toNat; omega))

/-- A segment that was transmitted had room in its buffer. -/
theorem transmitSegment_fits (hdr : TcpHdr) (data : ByteMem) (sz : BitVec 16) (dest : BitVec 32)
    (dev : NetDevice) (n : Net) :
    (transmitSegment hdr data sz dest dev n).Post fun _ => sz.toNat < 65482 := by
  intro n' h
  by_contra hsz
  by_cases hwrap : sz.toNat < 65516
  · cases (transmitSegment_panic (Nat.le_of_not_lt hsz) hwrap _ _ _ _ _).symm.trans h
  · cases (transmitSegment_outOfBounds (Nat.le_of_not_lt hwrap) _ _ _ _ _).symm.trans h

variable {k : Kernel σ} {s : Stream σ}

theorem resetStream_total (fresh : k.net.Fresh) (dev : NetDevice) (hdr : TcpHdr)
    (srcIp : BitVec 32) :
    (resetStream dev hdr srcIp k).Total fun k' => k.net.Grows k'.net := by
  rw [resetStream_eq]
  exact .bind (transmitSegment_total fresh (by decide) _ _ _ _) fun n grows => .ok grows

/-- The call fits into a buffer. -/
def AppCall.Fits : AppCall → Prop
  | .tcpSend _ sz => sz.toNat < 65482
  | .tcpClose => True

theorem AppCall.fits_iff (c : AppCall) : c.Fits ↔ c.size.toNat < 65482 := by
  cases c with
  | tcpSend data sz => exact Iff.rfl
  | tcpClose => exact iff_of_true trivial (by decide)

theorem appCalls_total (fresh : k.net.Fresh) (s : Stream σ) {calls : List AppCall}
    (fits : ∀ c ∈ calls, c.Fits) :
    (appCalls s calls k).Total fun r => k.net.Grows r.2.net := by
  induction calls generalizing s k with
  | nil => exact .ok (.refl fresh)
  | cons c calls ih =>
      obtain ⟨hc, hcalls⟩ := List.forall_mem_cons.mp fits
      rw [appCalls_cons]
      refine .bind (transmitSegment_total fresh (c.fits_iff.mp hc) _ _ _ _) fun n grows => ?_
      exact (ih grows.fresh _ hcalls).mono fun r grows' => grows.trans grows'

/-- The first call that does not fit into a buffer has a size that wraps around when the
header is added to it. -/
def Oversized : List AppCall → Prop
  | [] => False
  | .tcpSend _ sz :: calls => if sz.toNat < 65482 then Oversized calls else 65516 ≤ sz.toNat
  | .tcpClose :: calls => Oversized calls

theorem oversized_cons (c : AppCall) (calls : List AppCall) :
    Oversized (c :: calls) ↔
      if c.size.toNat < 65482 then Oversized calls else 65516 ≤ c.size.toNat := by
  cases c with
  | tcpSend data sz => exact Iff.rfl
  | tcpClose => exact iff_of_eq (if_pos (by decide)).symm

theorem appCalls_within (fresh : k.net.Fresh) (s : Stream σ) {calls : List AppCall}
    (h : ¬Oversized calls) :
    (appCalls s calls k).Within (fun r => k.net.Grows r.2.net) (Trap.IsPanic ·) := by
  induction calls generalizing s k with
  | nil => exact .ok (.refl fresh)
  | cons c calls ih =>
      rw [oversized_cons] at h
      rw [appCalls_cons]
      by_cases hfits : c.size.toNat < 65482
      · rw [if_pos hfits] at h
        refine .bind (.of_total (transmitSegment_total fresh hfits _ _ _ _)) fun n grows => ?_
        exact (ih grows.fresh _ h).mono fun r grows' => grows.trans grows'
      · rw [if_neg hfits, Nat.not_le] at h
        have hpanic := transmitSegment_panic (Nat.le_of_not_lt hfits) h
          (headerFromStream s c.flag).1 c.payload s.remoteAddr s.dev k.net
        exact .inr ⟨_, Except.bind_error hpanic, trivial⟩

theorem appCalls_outOfBounds (fresh : k.net.Fresh) (s : Stream σ) {calls : List AppCall}
    (h : Oversized calls) : appCalls s calls k = .error .outOfBounds := by
  induction calls generalizing s k with
  | nil => exact h.elim
  | cons c calls ih =>
      rw [oversized_cons] at h
      rw [appCalls_cons]
      by_cases hfits : c.size.toNat < 65482
      · rw [if_pos hfits] at h
        refine Except.Total.bind_error (transmitSegment_total fresh hfits _ _ _ _) ?_
        exact fun n grows => ih grows.fresh _ h
      · rw [if_neg hfits] at h
        exact Except.bind_error (transmitSegment_outOfBounds h _ _ _ _ _)

/-- The new stream is allocated. -/
theorem connected_total (fresh : k.net.Fresh) (dev : NetDevice) (localPort remotePort : BitVec 16)
    (remoteAddr ackSeq : BitVec 32) (fn : TcpReadFn σ) :
    (connected dev localPort remotePort remoteAddr ackSeq fn k).Total fun k' =>
      k.net.Grows k'.net ∧ newAddr k ∈ k'.net.live := by
  refine .bind (ipSbuffAlloc_total k.net 20 (by decide)) ?_
  rintro ⟨sb, n₁⟩ b
  have grows₁ := Net.kmemAlloc_grows (b.fresh fresh)
  have hroom : 54 + (0 : BitVec 16).toNat ≤ sb.totalSize.toNat := b.totalSize.ge
  refine .bind (sendSegment_total grows₁.fresh (grows₁.live _ b.mem_live) b.head hroom _ _ _
    dev) ?_
  intro n₂ sends
  refine .ok ⟨b.grows fresh ((grows₁.sends _).trans sends), ?_⟩
  have hnew : n₁.next = newAddr k := by
    rw [show n₁ = _ from b.net]
    rfl
  rw [← hnew]
  refine sends.live _ n₁.kmemAlloc_mem ?_
  rw [show sb.addr = _ from b.addr, hnew]
  exact (Nat.lt_succ_self _).ne'

theorem syn_total (fresh : k.net.Fresh) (dev : NetDevice) (hdr : TcpHdr) (srcIp : BitVec 32) :
    (syn dev hdr srcIp k).Total fun k' => k.net.Grows k'.net ∧
      ((k.allListeners.find? fun l => l.port == ntos hdr.destPort).isSome = true →
        newAddr k ∈ k'.net.live) := by
  unfold syn
  split
  · next hnone =>
    exact (resetStream_total fresh dev hdr srcIp).mono fun k' grows =>
      ⟨grows, fun h => by rw [hnone] at h; exact nomatch h⟩
  · next l hl =>
    have hconnected := connected_total (k := { k with app := (l.accept k.app).1 }) fresh dev
      (ntos hdr.destPort) (ntos hdr.srcPort) srcIp (ntol hdr.sequence) (l.accept k.app).2
    exact hconnected.mono fun k' h => ⟨h.1, fun _ => h.2⟩

end BadOs
