import BadOs.Net.Packet
import BadOs.Net.Stream

/-!
# The kernel as a transition system

A step is a received frame, a segment that reaches `tcp_segment` by another way, or
a call of the programming interface. As far as TCP is concerned a frame is a
segment or nothing.
-/

namespace BadOs

variable {σ : Type}

/-- The arguments of `tcp_segment`. -/
structure Segment where
  dev : NetDevice
  data : ByteMem
  sz : BitVec 32
  srcIp : BitVec 32

namespace Segment

def hdr (g : Segment) : TcpHdr := TcpHdr.load g.data

/-- The number of payload bytes. -/
def len (g : Segment) : BitVec 32 := payloadLen g.hdr g.sz

/-- The flag is set in the header. -/
def has (g : Segment) (flag : BitVec 8) : Bool := g.hdr.has flag

/-- The segment names the connection of the stream. -/
def isFor (g : Segment) (s : Stream σ) : Bool := s.isFor g.dev g.srcIp g.hdr

/-- The stream that `find` returns for the segment. -/
def find (g : Segment) (allStreams : List (Stream σ)) : Option (Stream σ) :=
  BadOs.find g.dev g.srcIp g.hdr allStreams

/-- The listener that a `Syn` meets. -/
def listener (g : Segment) (k : Kernel σ) : Option (ListenState σ) :=
  k.allListeners.find? fun l => l.port == ntos g.hdr.destPort

/-- The segment asks for a connection and there is a listener. -/
def opens (g : Segment) (k : Kernel σ) : Bool := g.has TcpFlag.syn && (g.listener k).isSome

theorem opens_of_listener {g : Segment} {k : Kernel σ} {l : ListenState σ}
    (hsyn : g.has TcpFlag.syn = true) (hl : g.listener k = some l) : g.opens k = true := by
  rw [opens, hsyn, hl]
  rfl

end Segment

/-- A segment from port 1000 of a peer to port 80 of a device, for concrete runs. -/
def peerSegment (flags : BitVec 8) (offset : BitVec 4) (sequence ack : BitVec 32)
    (payload : List (BitVec 8)) : Segment where
  dev := ⟨0xC0A80302, 0⟩
  data := fun i =>
    if i < sizeofTcpHdr then
      TcpHdr.store ⟨ntos 1000, ntos 80, ntol sequence, ntol ack, 0, offset, flags, 0, 0⟩ 0
        (fun _ => 0) i
    else (payload[i - sizeofTcpHdr]?).getD 0
  sz := BitVec.ofNat 32 (sizeofTcpHdr + payload.length)
  srcIp := 0xC0A80301

/-- The segment in a frame. -/
def frameSegment (dev : NetDevice) (m : ByteMem) : Option Segment :=
  let packet := m.shift sizeofEthernetFrame
  let ip := Ipv4Header.load packet
  if ntos (m.read 12 2) = 0x0800 ∧ ip.proto = 6 then
    some {
      dev := dev
      data := packet.shift ip.hdrLen.toNat
      sz := (ntos ip.totalLen).setWidth 32 - ip.hdrLen.setWidth 32
      srcIp := ntol ip.src }
  else none

/-- An echo request of 192.168.3.1 with this total length, for concrete runs. -/
def pingFrame (totalLen : BitVec 16) : ByteMem := fun i =>
  ([0, 0, 0, 0, 0, 0, 0, 0, 0, 0, 0, 0, 0x08, 0x00,
    0x45, 0, totalLen.extractLsb' 8 8, totalLen.extractLsb' 0 8, 0, 0, 0, 0, 64, 1, 0, 0,
    192, 168, 3, 1, 192, 168, 3, 2, 8][i]? : Option (BitVec 8)).getD 0

/-- The answer of 192.168.3.1 to an ARP request of 192.168.3.2, for concrete runs. -/
def peerArp : ByteMem := fun i =>
  ([0, 0, 0, 0, 0, 0, 0, 0, 0, 0, 0, 0, 0x08, 0x06, 0, 1, 8, 0, 6, 4, 0, 2, 1, 2, 3, 4, 5, 6,
    192, 168, 3, 1, 0, 0, 0, 0, 0, 0, 192, 168, 3, 2][i]? : Option (BitVec 8)).getD 0

inductive KernelOp (σ : Type) where
  | frame (dev : NetDevice) (m : ByteMem)
  | segment (g : Segment)
  | tcpListen (port : BitVec 16) (accept : σ → σ × TcpReadFn σ)
  | udpListen (port : BitVec 32) (onRead : UdpNotify σ)
  | tcpSend (addr : Nat) (data : ByteMem) (sz : BitVec 16)
  | tcpClose (addr : Nat)

/-- The segment that a step hands to `tcp_segment`. -/
def KernelOp.segment? : KernelOp σ → Option Segment
  | .frame dev m => frameSegment dev m
  | .segment g => some g
  | _ => none

/-- The stream that a step is a call of an application on, and the call. -/
def KernelOp.call? : KernelOp σ → Option (Nat × AppCall)
  | .tcpSend addr data sz => some (addr, .tcpSend data sz)
  | .tcpClose addr => some (addr, .tcpClose)
  | _ => none

/-- A call of an application on the stream at `addr`. -/
def onStream (addr : Nat) (call : AppCall) (k : Kernel σ) : Except Trap (Kernel σ) :=
  match k.allStreams.find? fun s => s.addr == addr with
  | none => .error .useAfterFree
  | some s => do
      let (s, k) ← appCalls s [call] k
      return k.putStream (some s)

def kernelStep (k : Kernel σ) : KernelOp σ → Except Trap (Kernel σ)
  | .frame dev m => ethernetPacket dev m k
  | .segment g => tcpSegment g.dev g.data g.sz g.srcIp k
  | .tcpListen port accept => .ok (tcpListen port accept k).2
  | .udpListen port onRead => .ok (udpListen port onRead k).2
  | .tcpSend addr data sz => onStream addr (.tcpSend data sz) k
  | .tcpClose addr => onStream addr .tcpClose k

/-! ## Frames -/

theorem arpPacket_next (dev : NetDevice) (data : ByteMem) (n : Net) :
    (arpPacket dev data n).Post fun n' => n.next ≤ n'.next := by
  dsimp only [arpPacket]
  split
  · exact .ok (Nat.le_refl _)
  · split
    · exact (reply_sameTables n dev _ _ false).mono fun _ same => same.next
    · unfold arpStore
      split
      · exact .ok (Nat.le_refl _)
      · exact .error

theorem icmpSegment_sameTables (sender : BitVec 32) (dev : NetDevice) (data : ByteMem)
    (len : BitVec 16) (n : Net) : (icmpSegment sender dev data len n).Post n.SameTables := by
  dsimp only [icmpSegment]
  split
  · exact .ok (.refl n)
  · split
    · refine .bind (ipSbuffAlloc_sameTables n len) ?_
      rintro ⟨buf, n₁⟩ same₁
      refine .bind_any fun buf => .bind (ipSend_sameTables n₁ buf 1 sender dev) ?_
      rintro ⟨_, n₂⟩ same₂
      exact (releaseRef_sameTables n₂ buf).mono fun n₃ same₃ => (same₁.trans same₂).trans same₃
    · exact .ok (.refl n)

theorem udpSend_sameTables (quad : UdpQuad) (data : ByteMem) (size : BitVec 32) (n : Net) :
    (udpSend quad data size n).Post fun r => n.SameTables r.2 := by
  refine .bind (Q := fun r => n.SameTables r.2) ?_ ?_
  · refine .bind (ipSbuffAlloc_sameTables n _) ?_
    rintro ⟨sb, n₁⟩ same₁
    exact .bind_any fun sb => .ok same₁
  · rintro ⟨sb, n₁⟩ same₁
    refine .bind_any fun sb => .bind_any fun dev => ?_
    cases dev with
    | none => exact .ok same₁
    | some dev =>
        exact .bind_any fun sb => .bind_any fun sb =>
          (ipSend_sameTables n₁ sb 17 quad.dstAddr dev).mono fun _ same₂ => same₁.trans same₂

theorem udpCalls_sameTables (calls : List UdpCall) (n : Net) :
    (udpCalls calls n).Post n.SameTables := by
  induction calls generalizing n with
  | nil => exact .ok (.refl n)
  | cons c calls ih =>
      refine .bind (udpSend_sameTables c.quad c.data c.size n) ?_
      rintro ⟨_, n₁⟩ same₁
      exact (ih n₁).mono fun n₂ same₂ => same₁.trans same₂

theorem udpNotify_post (dev : NetDevice) (data : ByteMem) (srcIp : BitVec 32)
    (ports : List (UdpListeningPort σ)) (k : Kernel σ) :
    (udpNotify dev data srcIp ports k).Post fun k' => ∃ n app, k.net.SameTables n ∧
      k' = { k with net := n, app := app } := by
  induction ports generalizing k with
  | nil => exact .ok ⟨k.net, k.app, .refl _, rfl⟩
  | cons p ports ih =>
      simp only [udpNotify]
      split
      · refine .bind (udpCalls_sameTables _ k.net) fun n₁ same₁ => ?_
        refine (ih _).mono ?_
        rintro _ ⟨n₂, app, same₂, rfl⟩
        exact ⟨n₂, app, same₁.trans same₂, rfl⟩
      · exact ih k

theorem registerDevice_next (dev : NetDevice) (n : Net) :
    (registerDevice dev n).Post fun n' => n'.next = n.next :=
  .bind_any fun _ => .ok rfl

/-- A frame with a segment is a call of `tcp_segment`; any other leaves TCP alone. -/
theorem ethernetPacket_cases (dev : NetDevice) (m : ByteMem) (k : Kernel σ) {k' : Kernel σ}
    (h : ethernetPacket dev m k = .ok k') :
    (∃ g n, frameSegment dev m = some g ∧ n.next = k.net.next ∧
        tcpSegment g.dev g.data g.sz g.srcIp { k with net := n } = .ok k') ∨
      frameSegment dev m = none ∧ ∃ n app, k.net.next ≤ n.next ∧
        k' = { k with net := n, app := app } := by
  dsimp only [ethernetPacket] at h
  dsimp only [frameSegment]
  split at h
  · next htype =>
    dsimp only [ipPacket] at h
    obtain ⟨n, hn, h⟩ := Except.bind_eq_ok.mp h
    have hnext := registerDevice_next dev k.net n hn
    split at h
    · next hproto =>
      refine Or.inr ⟨if_neg fun hcon => absurd (hproto.symm.trans hcon.2) (by decide), ?_⟩
      obtain ⟨n₁, hn₁, h⟩ := Except.bind_eq_ok.mp h
      cases h
      have same := icmpSegment_sameTables _ _ _ _ _ _ hn₁
      exact ⟨n₁, k.app, hnext.ge.trans same.next, rfl⟩
    · split at h
      · next hproto => exact Or.inl ⟨_, n, if_pos ⟨htype, hproto⟩, hnext, h⟩
      · next hproto =>
        refine Or.inr ⟨if_neg fun hcon => hproto hcon.2, ?_⟩
        split at h
        · obtain ⟨n, app, same, rfl⟩ := udpNotify_post _ _ _ _ _ _ h
          exact ⟨n, app, hnext.ge.trans same.next, rfl⟩
        · cases h
          exact ⟨n, k.app, hnext.ge, rfl⟩
  · next htype =>
    refine Or.inr ⟨if_neg fun hcon => htype hcon.1, ?_⟩
    split at h
    · obtain ⟨n, hn, h⟩ := Except.bind_eq_ok.mp h
      cases h
      exact ⟨n, k.app, arpPacket_next _ _ _ _ hn, rfl⟩
    · cases h
      exact ⟨k.net, k.app, Nat.le_refl _, rfl⟩

/-- What a frame with a segment does. -/
theorem ethernetPacket_of_segment {dev : NetDevice} {m : ByteMem} {g : Segment}
    (h : frameSegment dev m = some g) (k : Kernel σ) :
    ethernetPacket dev m k = registerDevice dev k.net >>= fun n =>
      tcpSegment g.dev g.data g.sz g.srcIp { k with net := n } := by
  dsimp only [frameSegment] at h
  split at h
  · next hframe =>
    obtain ⟨htype, hproto⟩ := hframe
    cases h
    dsimp only [ethernetPacket]
    rw [if_pos htype]
    dsimp only [ipPacket]
    rw [hproto]
    rfl
  · cases h

/-! ## Steps -/

/-- Every step is a segment, a call of an application on one stream, or nothing that
concerns the streams. -/
theorem kernelStep_cases {k k' : Kernel σ} {op : KernelOp σ} (h : kernelStep k op = .ok k') :
    (∃ g n, op.segment? = some g ∧ n.next = k.net.next ∧
        tcpSegment g.dev g.data g.sz g.srcIp { k with net := n } = .ok k') ∨
      (op.segment? = none ∧ ∃ n app ports listeners, k.net.next ≤ n.next ∧
        k' = { k with net := n, app := app, listeningPorts := ports, allListeners := listeners }) ∨
      op.segment? = none ∧ ∃ s c n, op.call? = some (s.addr, c) ∧ s ∈ k.allStreams ∧
        k.net.SameTables n ∧ k' = { k with net := n, log := k.log ++ [s.callEvent c] }.putStream
          (some (s.afterCall c)) := by
  have call : ∀ addr c, onStream addr c k = .ok k' → ∃ s n, s.addr = addr ∧ s ∈ k.allStreams ∧
      k.net.SameTables n ∧ k' = { k with net := n, log := k.log ++ [s.callEvent c] }.putStream
        (some (s.afterCall c)) := by
    intro addr c h
    unfold onStream at h
    split at h
    · cases h
    · next s hs =>
      obtain ⟨r, hr, h⟩ := Except.bind_eq_ok.mp h
      obtain ⟨n, same, rfl⟩ := appCalls_post s k [c] r hr
      cases h
      have haddr : (s.addr == addr) = true :=
        List.find?_some (p := fun s : Stream σ => s.addr == addr) hs
      exact ⟨s, n, eq_of_beq haddr, List.mem_of_find?_eq_some hs, same, rfl⟩
  cases op with
  | frame dev m =>
      obtain ⟨g, n, hg, hnext, h⟩ | ⟨hg, n, app, hnext, rfl⟩ := ethernetPacket_cases dev m k h
      · exact Or.inl ⟨g, n, hg, hnext, h⟩
      · exact Or.inr (Or.inl ⟨hg, n, app, k.listeningPorts, k.allListeners, hnext, rfl⟩)
  | segment g => exact Or.inl ⟨g, k.net, rfl, rfl, h⟩
  | tcpListen port accept =>
      cases h
      refine Or.inr (Or.inl ⟨rfl, ?_⟩)
      simp only [tcpListen]
      split
      · exact ⟨k.net, k.app, k.listeningPorts, k.allListeners, Nat.le_refl _, rfl⟩
      · exact ⟨_, k.app, k.listeningPorts, _, (kmemAlloc_sameTables k.net).next, rfl⟩
  | udpListen port onRead =>
      cases h
      have same := (kmemAlloc_sameTables k.net).trans (kmemAlloc_sameTables k.net.kmemAlloc.2)
      exact Or.inr (Or.inl ⟨rfl, _, k.app, _, k.allListeners, same.next, rfl⟩)
  | tcpSend addr data sz =>
      obtain ⟨s, n, rfl, hs, same, rfl⟩ := call addr _ h
      exact Or.inr (Or.inr ⟨rfl, s, _, n, rfl, hs, same, rfl⟩)
  | tcpClose addr =>
      obtain ⟨s, n, rfl, hs, same, rfl⟩ := call addr _ h
      exact Or.inr (Or.inr ⟨rfl, s, _, n, rfl, hs, same, rfl⟩)

/-! ## A segment of a stream -/

/-- The record after the `Ack` of a segment. -/
def Segment.acknowledge (g : Segment) (s : Stream σ) : Stream σ :=
  if g.has TcpFlag.ack then s.afterAck g.hdr else s

/-- The record after the `Ack` and the payload of a segment. -/
def Segment.receive (g : Segment) (s : Stream σ) : Stream σ :=
  if copies s g.len then (g.acknowledge s).afterData g.hdr g.data g.len else g.acknowledge s

/-- What the `Psh` of a segment does. -/
inductive Pushed (psh : Bool) (s : Stream σ) (k : Kernel σ) : Stream σ → Kernel σ → Prop where
  | skipped : psh = false → Pushed psh s k s k
  | read (n : Net) (calls : List AppCall) : psh = true → k.net.SameTables n →
      calls = (s.readFn k.app (k.net.junk k.net.next) s.readBuf s.readOffset).2 →
      Pushed psh s k (s.afterPush calls) { k with
        net := n
        app := (s.readFn k.app (k.net.junk k.net.next) s.readBuf s.readOffset).1
        log := k.log ++ .read s.addr s.buffered :: s.callEvents calls }

/-- What the `Fin` of a segment does. -/
inductive Finished (fin : Bool) (s : Stream σ) (k : Kernel σ) :
    Option (Stream σ) → Kernel σ → Prop where
  | skipped : (fin = true → s.state ≠ .finWait2 ∧ s.state ≠ .established) →
      Finished fin s k (some s) k
  | answered (n : Net) : fin = true → s.state = .established → k.net.SameTables n →
      Finished fin s k (some s.afterFin) { k with
        net := n
        log := k.log ++ [s.finEvent (TcpFlag.fin ||| TcpFlag.ack)] }
  | closed (n : Net) : fin = true → s.state = .finWait2 → k.net.SameTables n →
      Finished fin s k none { k with
        net := n
        allStreams := Keyed.erase Stream.addr s.addr k.allStreams
        log := k.log ++ [s.finEvent TcpFlag.ack, .freed s.addr s.buffered] }

/-- What a segment does to the stream that it belongs to. -/
inductive Served (g : Segment) (s : Stream σ) (k : Kernel σ) : Kernel σ → Prop where
  | freed (n : Net) : g.has TcpFlag.ack = true → s.state = .lastAck → k.net.SameTables n →
      Served g s k { k with
        net := n
        allStreams := Keyed.erase Stream.addr s.addr k.allStreams
        log := k.log ++ [.freed s.addr s.buffered] }
  | kept {s₁ : Stream σ} {k₁ k₂ : Kernel σ} {p : Option (Stream σ)} :
      (g.has TcpFlag.ack = true → s.state ≠ .lastAck) →
      (copies s g.len → s.readOffset.toNat + g.len.toNat ≤ s.readMax.toNat) →
      Pushed (g.has TcpFlag.psh) (g.receive s) k s₁ k₁ →
      Finished (g.has TcpFlag.fin) s₁ k₁ p k₂ → Served g s k (k₂.putStream p)

section

variable {flag : Bool} {s s' : Stream σ} {k k' : Kernel σ} {p : Option (Stream σ)}

theorem Pushed.sameTables (h : Pushed flag s k s' k') : k.net.SameTables k'.net := by
  cases h with
  | skipped _ => exact .refl _
  | read n calls _ same _ => exact same

theorem Finished.sameTables (h : Finished flag s k p k') : k.net.SameTables k'.net := by
  cases h with
  | skipped _ => exact .refl _
  | answered n _ _ same => exact same
  | closed n _ _ same => exact same

theorem Served.sameTables {g : Segment} (h : Served g s k k') : k.net.SameTables k'.net := by
  cases h with
  | freed n _ _ same => exact same
  | @kept _ _ k₂ p _ _ hpushed hfinished =>
      have hput : (k₂.putStream p).net = k₂.net := by cases p <;> rfl
      rw [hput]
      exact hpushed.sameTables.trans hfinished.sameTables

end

theorem pushed_of_eq {psh : Bool} {s : Stream σ} {k : Kernel σ} {r : Option (Stream σ) × Kernel σ}
    (h : (if psh = true then pushit (some s) k else .ok (some s, k)) = .ok r) :
    ∃ s₁, r.1 = some s₁ ∧ Pushed psh s k s₁ r.2 := by
  split at h
  · next hpsh =>
    obtain ⟨s₁, n, calls, hs, same, hcalls, rfl⟩ := pushit_post k (some s) r h
    cases hs
    exact ⟨_, rfl, .read n calls hpsh same hcalls⟩
  · next hpsh =>
    cases h
    exact ⟨s, rfl, .skipped (Bool.eq_false_iff.mpr hpsh)⟩

theorem finished_of_eq {flag : Bool} {dev : NetDevice} {s : Stream σ} {k : Kernel σ}
    {r : Option (Stream σ) × Kernel σ}
    (h : (if flag = true then fin dev (some s) k else .ok (some s, k)) = .ok r) :
    Finished flag s k r.1 r.2 := by
  split at h
  · next hfin =>
    obtain ⟨s₁, hs, ⟨hstate, n, same, rfl⟩ | ⟨hstate, n, same, rfl⟩ | ⟨hwait, hest, rfl⟩⟩ :=
      fin_post k dev (some s) r h <;> cases hs
    · exact .closed n hfin hstate same
    · exact .answered n hfin hstate same
    · exact .skipped fun _ => ⟨hwait, hest⟩
  · next hfin =>
    cases h
    exact .skipped fun h => absurd h hfin

/-- Every call of `serve` that returns is one of these. -/
theorem serve_served {g : Segment} {s : Stream σ} {k k' : Kernel σ}
    (h : serve g.dev g.data g.sz s k = .ok k') : Served g s k k' := by
  have rest : ∀ s₁, s₁.readOffset = s.readOffset → s₁.readMax = s.readMax →
      s₁ = g.acknowledge s → (g.has TcpFlag.ack = true → s.state ≠ .lastAck) →
      (bufferData g.hdr g.data (some s₁) g.len >>= fun p =>
        (if g.has TcpFlag.psh = true then pushit p k else .ok (p, k)) >>= fun r =>
        (if g.has TcpFlag.fin = true then fin g.dev r.1 r.2 else .ok r) >>= fun r =>
        .ok (r.2.putStream r.1)) = .ok k' → Served g s k k' := by
    intro s₁ hoffset hmax hs₁ hlast h
    have hcopies : copies s₁ g.len ↔ copies s g.len := by rw [copies, copies, hoffset, hmax]
    obtain ⟨p, hp, h⟩ := Except.bind_eq_ok.mp h
    obtain ⟨hp, hroom⟩ := bufferData_some s₁ _ _ _ p hp
    have hreceive : p = some (g.receive s) := by
      rw [hp, Segment.receive, ← hs₁, if_congr hcopies rfl rfl]
    subst hreceive
    rw [hcopies, hoffset, hmax] at hroom
    obtain ⟨⟨p₂, k₂⟩, hr, h⟩ := Except.bind_eq_ok.mp h
    obtain ⟨s₂, rfl, hpushed⟩ := pushed_of_eq hr
    obtain ⟨⟨p₃, k₃⟩, hr, h⟩ := Except.bind_eq_ok.mp h
    cases h
    exact .kept hlast hroom hpushed (finished_of_eq hr)
  obtain ⟨⟨p, k₁⟩, hack, h⟩ := Except.bind_eq_ok.mp h
  by_cases hflag : g.has TcpFlag.ack = true
  · rw [if_pos (by exact hflag)] at hack
    obtain ⟨hstate, hr⟩ | ⟨hstate, n, same, hr⟩ := acked_post s k _ _ hack
    · cases hr
      exact rest (s.afterAck g.hdr) rfl rfl (if_pos hflag).symm (fun _ => hstate) h
    · cases hr
      obtain ⟨p, hp, h⟩ := Except.bind_eq_ok.mp h
      cases bufferData_none _ _ _ p hp
      obtain ⟨⟨p₂, k₂⟩, hpush, h⟩ := Except.bind_eq_ok.mp h
      split at hpush
      · cases hpush
      · cases hpush
        obtain ⟨⟨p₃, k₃⟩, hfin, h⟩ := Except.bind_eq_ok.mp h
        split at hfin
        · cases hfin
        · cases hfin
          cases h
          exact .freed n hflag hstate same
  · rw [if_neg (by exact hflag)] at hack
    cases hack
    exact rest s rfl rfl (if_neg hflag).symm (fun h => absurd h hflag) h

theorem Segment.acknowledge_sameConn (g : Segment) (s : Stream σ) :
    s.SameConn (g.acknowledge s) := by
  unfold Segment.acknowledge
  split
  · exact s.afterAck_sameConn _
  · exact .refl s

theorem Segment.receive_sameConn (g : Segment) (s : Stream σ) : s.SameConn (g.receive s) := by
  unfold Segment.receive
  split
  · exact (g.acknowledge_sameConn s).trans (Stream.afterData_sameConn _ _ _ _)
  · exact g.acknowledge_sameConn s

/-- The services that wait for connections and datagrams are the same. -/
structure Kernel.SameServices (k k' : Kernel σ) : Prop where
  allListeners : k'.allListeners = k.allListeners
  listeningPorts : k'.listeningPorts = k.listeningPorts

theorem onStream_sameServices {addr : Nat} {c : AppCall} {k k' : Kernel σ}
    (h : onStream addr c k = .ok k') : k.SameServices k' := by
  unfold onStream at h
  split at h
  · cases h
  · next s _ =>
    obtain ⟨r, hr, h⟩ := Except.bind_eq_ok.mp h
    obtain ⟨n, _, rfl⟩ := appCalls_post s k [c] r hr
    cases h
    exact ⟨rfl, rfl⟩

/-- Only a read function that closes the stream changes its state. -/
theorem Pushed.state {psh : Bool} {s s₁ : Stream σ} {k k₁ : Kernel σ} (h : Pushed psh s k s₁ k₁) :
    s₁.state = s.state ∨ s₁.state = .finWait1 ∧ psh = true ∧
      ∃ app heap data sz, AppCall.tcpClose ∈ (s.readFn app heap data sz).2 := by
  cases h with
  | skipped _ => exact Or.inl rfl
  | read n calls hpsh _ hcalls =>
      refine (s.afterCalls_state calls).imp_right fun ⟨hstate, hclose⟩ => ?_
      exact ⟨hstate, hpsh, _, _, _, _, hcalls ▸ hclose⟩

theorem Pushed.frame {psh : Bool} {s s₁ : Stream σ} {k k₁ : Kernel σ} (h : Pushed psh s k s₁ k₁) :
    s.SameConn s₁ ∧ k.SameServices k₁ ∧ k₁.allStreams = k.allStreams ∧
      k.net.next ≤ k₁.net.next := by
  cases h with
  | skipped _ => exact ⟨.refl s, ⟨rfl, rfl⟩, rfl, Nat.le_refl _⟩
  | read n calls _ same _ => exact ⟨s.afterPush_sameConn calls, ⟨rfl, rfl⟩, rfl, same.next⟩

/-- Why a stream is removed. -/
inductive Removed (g : Segment) (s : Stream σ) (k : Kernel σ) : Prop where
  | acked : g.has TcpFlag.ack = true → s.state = .lastAck → Removed g s k
  | closed {s₁ : Stream σ} {k₁ : Kernel σ} : Pushed (g.has TcpFlag.psh) (g.receive s) k s₁ k₁ →
      g.has TcpFlag.fin = true → s₁.state = .finWait2 → Removed g s k

/-- Why a record is stored back. -/
inductive Kept (g : Segment) (s : Stream σ) (k : Kernel σ) (s' : Stream σ) : Prop where
  | same {k₁ : Kernel σ} : (g.has TcpFlag.ack = true → s.state ≠ .lastAck) →
      Pushed (g.has TcpFlag.psh) (g.receive s) k s' k₁ →
      (g.has TcpFlag.fin = true → s'.state ≠ .finWait2) → Kept g s k s'
  | last {s₁ : Stream σ} {k₁ : Kernel σ} : (g.has TcpFlag.ack = true → s.state ≠ .lastAck) →
      Pushed (g.has TcpFlag.psh) (g.receive s) k s₁ k₁ →
      s₁.state = .established → s' = s₁.afterFin → Kept g s k s'

/-- The list after a stream was served: the record was updated, or it is gone. -/
theorem Served.frame {g : Segment} {s : Stream σ} {k k' : Kernel σ} (h : Served g s k k') :
    k.SameServices k' ∧ k.net.next ≤ k'.net.next ∧
      ((∃ s', s.SameConn s' ∧ Kept g s k s' ∧
          k'.allStreams = Keyed.replace Stream.addr s' k.allStreams) ∨
        Removed g s k ∧ k'.allStreams = Keyed.erase Stream.addr s.addr k.allStreams) := by
  cases h with
  | freed n hack hlast same => exact ⟨⟨rfl, rfl⟩, same.next, Or.inr ⟨.acked hack hlast, rfl⟩⟩
  | @kept s₁ k₁ k₂ p hlast _ hpushed hfinished =>
      obtain ⟨hconn, services, hstreams, hnext⟩ := hpushed.frame
      have hconn := (g.receive_sameConn s).trans hconn
      cases hfinished with
      | skipped hstate =>
          refine ⟨⟨services.1, services.2⟩, hnext, Or.inl ⟨s₁, hconn, .same hlast hpushed fun h =>
            (hstate h).1, ?_⟩⟩
          simp only [Kernel.putStream, hstreams]
      | answered n _ hstate same =>
          refine ⟨⟨services.1, services.2⟩, hnext.trans same.next, Or.inl ⟨s₁.afterFin,
            hconn.trans ⟨rfl, rfl, rfl, rfl, rfl, rfl, rfl, rfl⟩, .last hlast hpushed hstate rfl,
            ?_⟩⟩
          simp only [Kernel.putStream, hstreams]
      | closed n hfin hstate same =>
          refine ⟨⟨services.1, services.2⟩, hnext.trans same.next,
            Or.inr ⟨.closed hpushed hfin hstate, ?_⟩⟩
          simp only [Kernel.putStream, hstreams, hconn.addr]

/-! ## The list of streams -/

/-- The records have different addresses, all of them allocated before. -/
structure Kernel.Wf (k : Kernel σ) : Prop where
  unique : Keyed.Unique Stream.addr k.allStreams
  below : ∀ s ∈ k.allStreams, s.addr < k.net.next

/-- The kernel after the `Syn` of a segment was dealt with. -/
inductive Opened (g : Segment) (k : Kernel σ) : Kernel σ → Prop where
  | kept (n : Net) : g.opens k = false → k.net.SameTables n → Opened g k { k with net := n }
  | opened (l : ListenState σ) (junk : ByteMem) (n : Net) : g.has TcpFlag.syn = true →
      g.listener k = some l → newAddr k < n.next → k.net.SameTables n →
      Opened g k { k with
        net := n
        app := (l.accept k.app).1
        allStreams := openedStream (newAddr k) junk g.dev g.hdr g.srcIp (l.accept k.app).2 ::
          k.allStreams
        log := k.log ++ [synAckEvent (openedStream (newAddr k) junk g.dev g.hdr g.srcIp
          (l.accept k.app).2)] }

theorem opened_of_eq {g : Segment} {k k₁ : Kernel σ}
    (h : (if g.has TcpFlag.syn = true then syn g.dev g.hdr g.srcIp k else .ok k) = .ok k₁) :
    Opened g k k₁ := by
  by_cases hflag : g.has TcpFlag.syn = true
  · rw [if_pos hflag] at h
    obtain ⟨n, same, ⟨hnone, rfl⟩ | ⟨l, junk, hl, hlt, rfl⟩⟩ := syn_post k _ _ _ _ h
    · refine .kept n ?_ same
      rw [Segment.opens, hflag, Segment.listener, hnone]
      rfl
    · exact .opened l junk n hflag hl hlt same
  · rw [if_neg hflag] at h
    cases h
    refine .kept k.net ?_ (.refl _)
    rw [Segment.opens, Bool.eq_false_iff.mpr hflag, Bool.false_and]

/-- `tcp_segment` opens a stream if asked to, and serves the stream that it finds. -/
theorem tcpSegment_cases {g : Segment} {k k' : Kernel σ}
    (h : tcpSegment g.dev g.data g.sz g.srcIp k = .ok k') :
    ∃ k₁, Opened g k k₁ ∧
      ((g.find k₁.allStreams = none ∧ ∃ n, k₁.net.SameTables n ∧ k' = { k₁ with net := n }) ∨
        ∃ s, g.find k₁.allStreams = some s ∧ Served g s k₁ k') := by
  obtain ⟨k₁, hsyn, h⟩ := Except.bind_eq_ok.mp h
  refine ⟨k₁, opened_of_eq hsyn, ?_⟩
  split at h
  · next hnone => exact Or.inl ⟨hnone, resetStream_post _ _ _ k₁ _ h⟩
  · next s hs => exact Or.inr ⟨s, hs, serve_served h⟩

section Wf

variable {k k' : Kernel σ}

theorem Opened.sameTables {g : Segment} (h : Opened g k k') : k.net.SameTables k'.net := by
  cases h with
  | kept n _ same => exact same
  | opened l junk n _ _ _ same => exact same

theorem tcpSegment_sameTables {g : Segment}
    (h : tcpSegment g.dev g.data g.sz g.srcIp k = .ok k') : k.net.SameTables k'.net := by
  obtain ⟨k₁, hopened, ⟨_, n, same, rfl⟩ | ⟨s, _, hserve⟩⟩ := tcpSegment_cases h
  · exact hopened.sameTables.trans same
  · exact hopened.sameTables.trans hserve.sameTables

theorem tcpSegment_sameServices {g : Segment}
    (h : tcpSegment g.dev g.data g.sz g.srcIp k = .ok k') : k.SameServices k' := by
  obtain ⟨k₁, hopened, hrest⟩ := tcpSegment_cases h
  have services : k.SameServices k₁ := by cases hopened <;> exact ⟨rfl, rfl⟩
  obtain ⟨_, n, _, rfl⟩ | ⟨s, _, hserve⟩ := hrest
  · exact ⟨services.1, services.2⟩
  · obtain ⟨services', _⟩ := hserve.frame
    exact ⟨services'.1.trans services.1, services'.2.trans services.2⟩

theorem Opened.wf {g : Segment} (h : Opened g k k') (wf : k.Wf) : k'.Wf := by
  cases h with
  | kept n _ same => exact ⟨wf.unique, fun s hs => (wf.below s hs).trans_le same.next⟩
  | opened l junk n _ _ hlt same =>
      refine ⟨List.nodup_cons.mpr ⟨fun hmem => ?_, wf.unique⟩,
        List.forall_mem_cons.mpr ⟨hlt, fun s hs => (wf.below s hs).trans_le same.next⟩⟩
      obtain ⟨s, hs, haddr⟩ := List.mem_map.mp hmem
      have hnew : s.addr = k.net.next + 1 := haddr
      exact absurd (wf.below s hs) (by omega)

/-- Storing back a record of one of the streams keeps the list well formed. -/
theorem Kernel.Wf.replace (wf : k.Wf) {s s' : Stream σ} (hs : s ∈ k.allStreams)
    (hconn : s.SameConn s') (hnext : k.net.next ≤ k'.net.next)
    (hstreams : k'.allStreams = Keyed.replace Stream.addr s' k.allStreams) : k'.Wf := by
  refine ⟨hstreams ▸ wf.unique.replace s', fun t ht => ?_⟩
  rw [hstreams] at ht
  obtain ⟨ht, _⟩ | ⟨rfl, _⟩ := Keyed.mem_replace.mp ht
  · exact (wf.below t ht).trans_le hnext
  · rw [hconn.addr]
    exact (wf.below s hs).trans_le hnext

theorem Kernel.Wf.segment (wf : k.Wf) {g : Segment}
    (h : tcpSegment g.dev g.data g.sz g.srcIp k = .ok k') : k'.Wf := by
  obtain ⟨k₁, hopened, ⟨_, n, same, rfl⟩ | ⟨s, hs, hserve⟩⟩ := tcpSegment_cases h
  · have wf₁ := hopened.wf wf
    exact ⟨wf₁.unique, fun t ht => (wf₁.below t ht).trans_le same.next⟩
  · have wf₁ := hopened.wf wf
    obtain ⟨_, hnext, ⟨s', hconn, _, hstreams⟩ | ⟨_, hstreams⟩⟩ := hserve.frame
    · exact wf₁.replace (List.mem_of_find?_eq_some hs) hconn hnext hstreams
    · refine ⟨hstreams ▸ wf₁.unique.erase s.addr, fun t ht => ?_⟩
      rw [hstreams] at ht
      exact (wf₁.below t (wf₁.unique.mem_erase.mp ht).1).trans_le hnext

theorem Kernel.Wf.step (wf : k.Wf) {op : KernelOp σ} (h : kernelStep k op = .ok k') : k'.Wf := by
  obtain ⟨g, n, _, hnext, h⟩ | ⟨_, n, app, ports, listeners, hnext, rfl⟩ |
    ⟨_, s, c, n, _, hs, same, rfl⟩ := kernelStep_cases h
  · have wf' : Kernel.Wf { k with net := n } :=
      ⟨wf.unique, fun s hs => (wf.below s hs).trans_le hnext.ge⟩
    exact wf'.segment h
  · exact ⟨wf.unique, fun s hs => (wf.below s hs).trans_le hnext⟩
  · exact wf.replace hs (s.afterCall_sameConn c) same.next rfl

theorem boot_wf (junk : Nat → ByteMem) (app : σ) : (Kernel.boot junk app).Wf :=
  ⟨List.nodup_nil, fun _ h => nomatch h⟩

end Wf

/-! ## Invariants of single streams -/

/-- A property of stream records that every operation on a stream keeps. -/
structure StreamInvariant (P : Stream σ → Prop) : Prop where
  ack : ∀ s hdr, P s → P (s.afterAck hdr)
  data : ∀ s hdr data len, P s → s.readOffset.toNat + len.toNat ≤ s.readMax.toNat →
    P (s.afterData hdr data len)
  call : ∀ s c, P s → P (s.afterCall c)
  push : ∀ s, P s → P { s with readOffset := 0 }
  last : ∀ s, P s → P s.afterFin

namespace StreamInvariant

variable {P : Stream σ → Prop} {k k' : Kernel σ}

theorem calls (inv : StreamInvariant P) {s : Stream σ} (h : P s) (calls : List AppCall) :
    P (s.afterCalls calls) := by
  induction calls generalizing s with
  | nil => exact h
  | cons c calls ih => exact ih (inv.call s c h)

theorem receive (inv : StreamInvariant P) {g : Segment} {s : Stream σ} (h : P s)
    (room : copies s g.len → s.readOffset.toNat + g.len.toNat ≤ s.readMax.toNat) :
    P (g.receive s) := by
  have hack : P (g.acknowledge s) := by
    unfold Segment.acknowledge
    split
    · exact inv.ack s _ h
    · exact h
  unfold Segment.receive
  split
  · next hcopies =>
    refine inv.data _ _ _ _ hack ?_
    unfold Segment.acknowledge
    split <;> exact room hcopies
  · exact hack

theorem served (inv : StreamInvariant P) {g : Segment} {s : Stream σ} (hs : s ∈ k.allStreams)
    (h : ∀ s ∈ k.allStreams, P s) (served : Served g s k k') : ∀ s ∈ k'.allStreams, P s := by
  cases served with
  | freed n _ _ _ => exact fun t ht => h t ((Keyed.erase_sublist _ _).mem ht)
  | @kept s₁ k₁ k₂ p _ room hpushed hfinished =>
      have hreceived : P (g.receive s) := inv.receive (h s hs) room
      obtain ⟨h₁, hlist⟩ : P s₁ ∧ ∀ s ∈ k₁.allStreams, P s := by
        cases hpushed with
        | skipped _ => exact ⟨hreceived, h⟩
        | read n calls _ _ _ => exact ⟨inv.push _ (inv.calls hreceived calls), h⟩
      have hput : ∀ {s' : Stream σ}, P s' →
          ∀ t ∈ Keyed.replace Stream.addr s' k₁.allStreams, P t := by
        intro s' hs' t ht
        obtain ⟨ht, _⟩ | ⟨rfl, _⟩ := Keyed.mem_replace.mp ht
        · exact hlist t ht
        · exact hs'
      cases hfinished with
      | skipped _ => exact hput h₁
      | answered n _ _ _ => exact hput (inv.last s₁ h₁)
      | closed n _ _ _ => exact fun t ht => hlist t ((Keyed.erase_sublist _ _).mem ht)

/-- If new streams have the property as well, all streams have it after a step. -/
theorem step (inv : StreamInvariant P) {op : KernelOp σ} (h : ∀ s ∈ k.allStreams, P s)
    (opened : ∀ l ∈ k.allListeners, ∀ addr junk dev hdr srcIp,
      P (openedStream addr junk dev hdr srcIp (l.accept k.app).2))
    (hstep : kernelStep k op = .ok k') : ∀ s ∈ k'.allStreams, P s := by
  obtain ⟨g, n, _, _, hseg⟩ | ⟨_, n, app, ports, listeners, _, rfl⟩ |
    ⟨_, s, c, n, _, hs, _, rfl⟩ := kernelStep_cases hstep
  · obtain ⟨k₁, hopened, hrest⟩ := tcpSegment_cases hseg
    have h₁ : ∀ s ∈ k₁.allStreams, P s := by
      cases hopened with
      | kept n _ _ => exact h
      | opened l junk n _ hl _ _ =>
          exact List.forall_mem_cons.mpr
            ⟨opened l (List.mem_of_find?_eq_some hl) _ _ _ _ _, h⟩
    obtain ⟨_, n, _, rfl⟩ | ⟨s, hs, hserve⟩ := hrest
    · exact h₁
    · exact inv.served (List.mem_of_find?_eq_some hs) h₁ hserve
  · exact h
  · intro t ht
    obtain ⟨ht, _⟩ | ⟨rfl, _⟩ := Keyed.mem_replace.mp ht
    · exact h t ht
    · exact inv.call s c (h s hs)

end StreamInvariant

end BadOs
