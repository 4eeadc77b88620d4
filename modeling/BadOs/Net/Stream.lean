import BadOs.Net.Output
import BadOs.Net.Tcp

/-!
# What each TCP function does to its stream

One specification for each function, in terms of pure functions on the record.
-/

namespace BadOs

variable {σ : Type}

/-! ## Sending -/

theorem sendSegment_sameTables (sb : SBuff) (hdr : TcpHdr) (data : ByteMem) (sz : BitVec 16)
    (dest : BitVec 32) (dev : NetDevice) (n : Net) :
    (sendSegment sb hdr data sz dest dev n).Post n.SameTables :=
  .bind_any fun _ => .bind_any fun _ => .bind_any fun sb' =>
    .bind (ipSend_sameTables n sb' 6 dest dev) fun _ same => .ok same

/-- What the sending functions do to the network: a new buffer is filled and sent. -/
def transmitSegment (hdr : TcpHdr) (data : ByteMem) (sz : BitVec 16) (dest : BitVec 32)
    (dev : NetDevice) (n : Net) : Except Trap Net :=
  ipSbuffAlloc (sizeofTcpHdr + sz) n >>= fun r => sendSegment r.1 hdr data sz dest dev r.2

theorem transmitSegment_sameTables (hdr : TcpHdr) (data : ByteMem) (sz : BitVec 16)
    (dest : BitVec 32) (dev : NetDevice) (n : Net) :
    (transmitSegment hdr data sz dest dev n).Post n.SameTables := by
  refine .bind (ipSbuffAlloc_sameTables n _) ?_
  rintro ⟨sb, n₁⟩ same₁
  exact (sendSegment_sameTables sb hdr data sz dest dev n₁).mono fun n₂ same₂ => same₁.trans same₂

/-- The header of the reset that refuses a segment. -/
def resetHdr (dev : NetDevice) (hdr : TcpHdr) : TcpHdr where
  srcPort := hdr.destPort
  destPort := ntos ((ntol dev.ip).setWidth 16)
  sequence := 0
  ack := 0
  reserved := 0
  offset := 5
  flags := TcpFlag.rst ||| TcpFlag.ack
  window := 0
  chksum := 0

theorem headerFromStream_reset (dev : NetDevice) (hdr : TcpHdr) {s : Stream σ}
    (hlocal : s.localPort = ntos hdr.destPort) (hremote : s.remotePort = (ntol dev.ip).setWidth 16)
    (hzero : s.localSeq = 0 ∧ s.ackSeq = 0 ∧ s.readMax = s.readOffset ∧ s.needsAck = true) :
    (headerFromStream s TcpFlag.rst).1 = resetHdr dev hdr := by
  obtain ⟨hseq, hack, hmax, hneeds⟩ := hzero
  dsimp only [headerFromStream, resetHdr]
  rw [hlocal, hremote, hseq, hack, hmax, hneeds, ntos_ntos, BitVec.sub_self]
  rfl

theorem resetStream_eq (dev : NetDevice) (hdr : TcpHdr) (srcIp : BitVec 32) (k : Kernel σ) :
    resetStream dev hdr srcIp k =
      transmitSegment (resetHdr dev hdr) (fun _ => 0) 0 srcIp dev k.net >>=
        fun n => .ok { k with net := n } := by
  rw [transmitSegment, bind_assoc]
  dsimp only [resetStream]
  rw [headerFromStream_reset dev hdr rfl rfl ⟨rfl, rfl, rfl, rfl⟩]
  rfl

theorem resetStream_post (dev : NetDevice) (hdr : TcpHdr) (srcIp : BitVec 32) (k : Kernel σ) :
    (resetStream dev hdr srcIp k).Post fun k' =>
      ∃ n, k.net.SameTables n ∧ k' = { k with net := n } := by
  rw [resetStream_eq]
  exact .bind (transmitSegment_sameTables _ _ _ _ _ _) fun n same => .ok ⟨n, same, rfl⟩

namespace AppCall

/-- The flag in the segment that a call sends. -/
def flag : AppCall → BitVec 8
  | .tcpSend _ _ => TcpFlag.psh
  | .tcpClose => TcpFlag.fin

def payload : AppCall → ByteMem
  | .tcpSend data _ => data
  | .tcpClose => fun _ => 0

def size : AppCall → BitVec 16
  | .tcpSend _ sz => sz
  | .tcpClose => 0

end AppCall

namespace Stream

/-- The record after a call of `tcp_send` or `tcp_close`. -/
def afterCall (s : Stream σ) : AppCall → Stream σ
  | .tcpSend _ sz => { s with needsAck := false, localSeq := s.localSeq + sz.setWidth 32 }
  | .tcpClose => { s with needsAck := false, state := .finWait1, localSeq := s.localSeq + 1 }

def afterCalls (s : Stream σ) (calls : List AppCall) : Stream σ := calls.foldl afterCall s

/-- The segment that a call sends. -/
def callEvent (s : Stream σ) : AppCall → TcpEvent
  | .tcpSend data sz =>
      .segment s.addr (headerFromStream s TcpFlag.psh).1 (data.slice 0 sz.toNat)
  | .tcpClose => .segment s.addr (headerFromStream s TcpFlag.fin).1 []

def callEvents (s : Stream σ) : List AppCall → List TcpEvent
  | [] => []
  | c :: calls => s.callEvent c :: callEvents (s.afterCall c) calls

/-- The record after a segment with `Ack`, unless it is freed. -/
def afterAck (s : Stream σ) (hdr : TcpHdr) : Stream σ :=
  { s with
    pendingAck := if s.pendingAck ≤ hdr.ack then hdr.ack else s.pendingAck
    state :=
      match s.state with
      | .synReceived => .established
      | .finWait1 => .finWait2
      | state => state }

/-- The record after `len` bytes of payload were copied. -/
def afterData (s : Stream σ) (hdr : TcpHdr) (data : ByteMem) (len : BitVec 32) : Stream σ :=
  { s with
    ackSeq := ntol hdr.sequence + len
    readBuf := s.readBuf.copy s.readOffset.toNat data (4 * hdr.offset.toNat) len.toNat
    readOffset := s.readOffset + len
    needsAck := true }

/-- The record after `pushit`, whose read function made these calls. -/
def afterPush (s : Stream σ) (calls : List AppCall) : Stream σ :=
  { s.afterCalls calls with readOffset := 0 }

/-- The bytes that wait in the buffer. -/
def buffered (s : Stream σ) : List (BitVec 8) := s.readBuf.slice 0 s.readOffset.toNat

/-- The records are of the same connection and buffer. -/
structure SameConn (s s' : Stream σ) : Prop where
  addr : s'.addr = s.addr
  dev : s'.dev = s.dev
  localPort : s'.localPort = s.localPort
  remotePort : s'.remotePort = s.remotePort
  localAddr : s'.localAddr = s.localAddr
  remoteAddr : s'.remoteAddr = s.remoteAddr
  readMax : s'.readMax = s.readMax
  readFn : s'.readFn = s.readFn

theorem SameConn.refl (s : Stream σ) : s.SameConn s := ⟨rfl, rfl, rfl, rfl, rfl, rfl, rfl, rfl⟩

theorem SameConn.trans {s s' s'' : Stream σ} (h : s.SameConn s') (h' : s'.SameConn s'') :
    s.SameConn s'' :=
  ⟨h'.addr.trans h.addr, h'.dev.trans h.dev, h'.localPort.trans h.localPort,
    h'.remotePort.trans h.remotePort, h'.localAddr.trans h.localAddr,
    h'.remoteAddr.trans h.remoteAddr, h'.readMax.trans h.readMax, h'.readFn.trans h.readFn⟩

theorem afterCall_sameConn (s : Stream σ) (c : AppCall) : s.SameConn (s.afterCall c) := by
  cases c <;> exact ⟨rfl, rfl, rfl, rfl, rfl, rfl, rfl, rfl⟩

/-- What no call of the application changes. -/
theorem afterCalls_frame (s : Stream σ) (calls : List AppCall) :
    s.SameConn (s.afterCalls calls) ∧ (s.afterCalls calls).ackSeq = s.ackSeq ∧
      (s.afterCalls calls).pendingAck = s.pendingAck ∧
      (s.afterCalls calls).readBuf = s.readBuf ∧
      (s.afterCalls calls).readOffset = s.readOffset := by
  induction calls generalizing s with
  | nil => exact ⟨.refl s, rfl, rfl, rfl, rfl⟩
  | cons c calls ih =>
      obtain ⟨hconn, hseq, hpending, hbuf, hoffset⟩ := ih (s.afterCall c)
      refine ⟨(s.afterCall_sameConn c).trans hconn, hseq.trans ?_, hpending.trans ?_,
        hbuf.trans ?_, hoffset.trans ?_⟩ <;> cases c <;> rfl

/-- The application moves a stream to no other state than `FinWait1`. -/
theorem afterCalls_state (s : Stream σ) (calls : List AppCall) :
    (s.afterCalls calls).state = s.state ∨
      (s.afterCalls calls).state = .finWait1 ∧ AppCall.tcpClose ∈ calls := by
  induction calls generalizing s with
  | nil => exact Or.inl rfl
  | cons c calls ih =>
      cases c with
      | tcpSend data sz =>
          exact (ih (s.afterCall (.tcpSend data sz))).imp_right fun ⟨hstate, hclose⟩ =>
            ⟨hstate, List.mem_cons_of_mem _ hclose⟩
      | tcpClose =>
          exact Or.inr ⟨(ih (s.afterCall .tcpClose)).elim id And.left, List.mem_cons_self⟩

/-- Every call sends a segment that acknowledges what the stream expects next. -/
theorem callEvents_segment (s : Stream σ) (calls : List AppCall) :
    ∀ e ∈ s.callEvents calls, ∃ hdr payload,
      e = .segment s.addr hdr payload ∧ hdr.ack = ntol s.ackSeq := by
  induction calls generalizing s with
  | nil => exact fun _ he => nomatch he
  | cons c calls ih =>
      refine List.forall_mem_cons.mpr ⟨?_, fun e he => ?_⟩
      · cases c <;> exact ⟨_, _, rfl, rfl⟩
      · obtain ⟨hdr, payload, rfl, hack⟩ := ih (s.afterCall c) e he
        refine ⟨hdr, payload, ?_, hack.trans ?_⟩ <;> cases c <;> rfl

theorem afterAck_sameConn (s : Stream σ) (hdr : TcpHdr) : s.SameConn (s.afterAck hdr) :=
  ⟨rfl, rfl, rfl, rfl, rfl, rfl, rfl, rfl⟩

theorem afterData_sameConn (s : Stream σ) (hdr : TcpHdr) (data : ByteMem) (len : BitVec 32) :
    s.SameConn (s.afterData hdr data len) :=
  ⟨rfl, rfl, rfl, rfl, rfl, rfl, rfl, rfl⟩

theorem afterPush_sameConn (s : Stream σ) (calls : List AppCall) :
    s.SameConn (s.afterPush calls) :=
  (s.afterCalls_frame calls).1.trans ⟨rfl, rfl, rfl, rfl, rfl, rfl, rfl, rfl⟩

end Stream

variable (s : Stream σ) (k : Kernel σ)

theorem tcpSend_eq (data : ByteMem) (sz : BitVec 16) :
    tcpSend s data sz k =
      transmitSegment (headerFromStream s TcpFlag.psh).1 data sz s.remoteAddr s.dev k.net >>=
        fun n => .ok (s.afterCall (.tcpSend data sz),
          { k with net := n, log := k.log ++ [s.callEvent (.tcpSend data sz)] }) := by
  rw [transmitSegment, bind_assoc]
  rfl

theorem tcpClose_eq :
    tcpClose s k =
      transmitSegment (headerFromStream s TcpFlag.fin).1 (fun _ => 0) 0 s.remoteAddr s.dev k.net >>=
        fun n => .ok (s.afterCall .tcpClose,
          { k with net := n, log := k.log ++ [s.callEvent .tcpClose] }) := by
  rw [transmitSegment, bind_assoc]
  rfl

theorem Stream.callEvent_eq (c : AppCall) : s.callEvent c =
    .segment s.addr (headerFromStream s c.flag).1 (c.payload.slice 0 c.size.toNat) := by
  cases c <;> rfl

/-- One call sends one segment, and the other calls go on from there. -/
theorem appCalls_cons (c : AppCall) (calls : List AppCall) :
    appCalls s (c :: calls) k =
      transmitSegment (headerFromStream s c.flag).1 c.payload c.size s.remoteAddr s.dev k.net >>=
        fun n => appCalls (s.afterCall c) calls
          { k with net := n, log := k.log ++ [s.callEvent c] } := by
  cases c with
  | tcpSend data sz =>
      change (tcpSend s data sz k >>= _) = _
      rw [tcpSend_eq, bind_assoc]
      rfl
  | tcpClose =>
      change (tcpClose s k >>= _) = _
      rw [tcpClose_eq, bind_assoc]
      rfl

theorem appCalls_post (calls : List AppCall) :
    (appCalls s calls k).Post fun r => ∃ n, k.net.SameTables n ∧
      r = (s.afterCalls calls, { k with net := n, log := k.log ++ s.callEvents calls }) := by
  induction calls generalizing s k with
  | nil => exact .ok ⟨k.net, .refl _, by simp only [Stream.callEvents, List.append_nil]; rfl⟩
  | cons c calls ih =>
      rw [appCalls_cons]
      refine .bind (transmitSegment_sameTables _ _ _ _ _ _) fun n same => ?_
      refine (ih _ _).mono fun r ⟨n', same', hr⟩ => ⟨n', same.trans same', ?_⟩
      rw [hr, List.append_assoc]
      rfl

/-- The record of a new connection once its `SYN-ACK` is sent. -/
def openedStream (addr : Nat) (junk : ByteMem) (dev : NetDevice) (hdr : TcpHdr)
    (srcIp : BitVec 32) (fn : TcpReadFn σ) : Stream σ :=
  { newStream addr junk dev (ntos hdr.destPort) (ntos hdr.srcPort) srcIp (ntol hdr.sequence) fn with
    localSeq := 2 }

/-- The `SYN-ACK` of a new connection. -/
def synAckEvent (s : Stream σ) : TcpEvent :=
  .segment s.addr (headerFromStream { s with localSeq := 1 } (TcpFlag.syn ||| TcpFlag.ack)).1 []

/-- The address of the next stream: the buffer of the `SYN-ACK` is allocated first. -/
def newAddr (k : Kernel σ) : Nat := k.net.next + 1

theorem newAddr_net {k : Kernel σ} {n : Net} (hnext : n.next = k.net.next) :
    newAddr { k with net := n } = newAddr k := congrArg (· + 1) hnext

/-- A `Syn` to a port with a listener opens a stream at the next address; otherwise it
leaves the streams alone. -/
theorem syn_post (dev : NetDevice) (hdr : TcpHdr) (srcIp : BitVec 32) :
    (syn dev hdr srcIp k).Post fun k' => ∃ n, k.net.SameTables n ∧
      ((k.allListeners.find? (fun l => l.port == ntos hdr.destPort) = none ∧
          k' = { k with net := n }) ∨
        ∃ l junk, k.allListeners.find? (fun l => l.port == ntos hdr.destPort) = some l ∧
          newAddr k < n.next ∧
          k' = { k with
            net := n
            app := (l.accept k.app).1
            allStreams := openedStream (newAddr k) junk dev hdr srcIp (l.accept k.app).2 ::
              k.allStreams
            log := k.log ++ [synAckEvent (openedStream (newAddr k) junk dev hdr srcIp
              (l.accept k.app).2)] }) := by
  unfold syn
  split
  · next hnone =>
    refine (resetStream_post dev hdr srcIp k).mono ?_
    rintro _ ⟨n, same, rfl⟩
    exact ⟨n, same, Or.inl ⟨hnone, rfl⟩⟩
  · next l hl =>
    refine .bind (.and (ipSbuffAlloc_sameTables k.net _) (ipSbuffAlloc_next k.net _)) ?_
    rintro ⟨sb, n₁⟩ ⟨same₁, hnext : n₁.next = newAddr k⟩
    refine .bind (sendSegment_sameTables sb _ _ 0 _ dev _) fun n₂ same₂ => .ok ?_
    have same := (same₁.trans (kmemAlloc_sameTables n₁)).trans same₂
    refine ⟨n₂, same, Or.inr ⟨l, n₁.junk n₁.next, hl, hnext ▸ same₂.next, ?_⟩⟩
    rw [← hnext]
    rfl

/-! ## Receiving -/

theorem removeStream_post :
    (removeStream s k).Post fun k' => ∃ n, k.net.SameTables n ∧ k' = { k with
      net := n
      allStreams := Keyed.erase Stream.addr s.addr k.allStreams
      log := k.log ++ [.freed s.addr s.buffered] } :=
  .bind (kmemFree_sameTables k.net s.addr) fun n same => .ok ⟨n, same, rfl⟩

/-- The three assignments to the state are one. -/
theorem acked_eq (hdr : TcpHdr) :
    acked s hdr k =
      if s.state = .lastAck then do
        let k ← removeStream (s.afterAck hdr) k
        return (none, k)
      else return (some (s.afterAck hdr), k) := by
  have hpending : (if s.pendingAck ≤ hdr.ack then { s with pendingAck := hdr.ack } else s) =
      { s with pendingAck := if s.pendingAck ≤ hdr.ack then hdr.ack else s.pendingAck } := by
    split <;> rfl
  unfold acked Stream.afterAck
  rw [hpending]
  cases hstate : s.state <;> simp

theorem acked_post (hdr : TcpHdr) :
    (acked s hdr k).Post fun r =>
      (s.state ≠ .lastAck ∧ r = (some (s.afterAck hdr), k)) ∨
        s.state = .lastAck ∧ ∃ n, k.net.SameTables n ∧ r = (none, { k with
          net := n
          allStreams := Keyed.erase Stream.addr s.addr k.allStreams
          log := k.log ++ [.freed s.addr s.buffered] }) := by
  rw [acked_eq]
  by_cases hlast : s.state = .lastAck
  · rw [if_pos hlast]
    refine .bind (removeStream_post (s.afterAck hdr) k) ?_
    rintro _ ⟨n, same, rfl⟩
    exact .ok (Or.inr ⟨hlast, n, same, rfl⟩)
  · rw [if_neg hlast]
    exact .ok (Or.inl ⟨hlast, rfl⟩)

/-- The bytes are copied when the 32-bit sum is within the buffer; then the sum must
not have wrapped around, or the copy runs over the end of the buffer. -/
theorem bufferData_post (hdr : TcpHdr) (data : ByteMem) (p : Option (Stream σ))
    (len : BitVec 32) :
    (bufferData hdr data p len).Post fun p' =>
      p' = p ∧ (len = 0 ∨ ∃ s, p = some s ∧ s.readMax < s.readOffset + len) ∨
        ∃ s, p = some s ∧ p' = some (s.afterData hdr data len) ∧ len ≠ 0 ∧
          s.readOffset + len ≤ s.readMax ∧
          s.readOffset.toNat + len.toNat ≤ s.readMax.toNat := by
  unfold bufferData
  by_cases hzero : len = 0
  · rw [if_pos hzero]
    exact .ok (Or.inl ⟨rfl, Or.inl hzero⟩)
  · rw [if_neg hzero]
    cases p with
    | none => exact .error
    | some s =>
        change Except.Post (if s.readMax < s.readOffset + len then _ else _) _
        split
        · next hfull => exact .ok (Or.inl ⟨rfl, Or.inr ⟨s, rfl, hfull⟩⟩)
        · next hroom =>
          split
          · exact .error
          · next hin =>
            exact .ok (Or.inr ⟨s, rfl, rfl, hzero, BitVec.not_lt.mp hroom, Nat.le_of_not_lt hin⟩)

/-- The branch of `buffer_data` that copies. -/
def copies (s : Stream σ) (len : BitVec 32) : Prop := len ≠ 0 ∧ ¬s.readMax < s.readOffset + len

instance (s : Stream σ) (len : BitVec 32) : Decidable (copies s len) :=
  inferInstanceAs (Decidable (_ ∧ _))

theorem bufferData_some (hdr : TcpHdr) (data : ByteMem) (len : BitVec 32) :
    (bufferData hdr data (some s) len).Post fun p =>
      p = some (if copies s len then s.afterData hdr data len else s) ∧
        (copies s len → s.readOffset.toNat + len.toNat ≤ s.readMax.toNat) := by
  refine (bufferData_post hdr data (some s) len).mono ?_
  rintro p (⟨rfl, hnot⟩ | ⟨_, hs, rfl, hzero, hroom, hin⟩)
  · have hcopies : ¬copies s len := by
      rintro ⟨hzero, hroom⟩
      obtain hzero' | ⟨_, hs, hfull⟩ := hnot
      · exact hzero hzero'
      · cases hs
        exact hroom hfull
    exact ⟨by rw [if_neg hcopies], fun h => absurd h hcopies⟩
  · cases hs
    exact ⟨by rw [if_pos ⟨hzero, BitVec.not_lt.mpr hroom⟩], fun _ => hin⟩

theorem bufferData_none (hdr : TcpHdr) (data : ByteMem) (len : BitVec 32) :
    (bufferData hdr data (none : Option (Stream σ)) len).Post (· = none) := by
  refine (bufferData_post hdr data none len).mono ?_
  rintro p (⟨rfl, _⟩ | ⟨_, hs, _⟩)
  · rfl
  · exact nomatch hs

theorem pushit_post (p : Option (Stream σ)) :
    (pushit p k).Post fun r => ∃ s n calls, p = some s ∧ k.net.SameTables n ∧
      calls = (s.readFn k.app (k.net.junk k.net.next) s.readBuf s.readOffset).2 ∧
      r = (some (s.afterPush calls), { k with
        net := n
        app := (s.readFn k.app (k.net.junk k.net.next) s.readBuf s.readOffset).1
        log := k.log ++ .read s.addr s.buffered :: s.callEvents calls }) := by
  cases p with
  | none => exact .error
  | some s =>
      change Except.Post (appCalls s _ _ >>= _) _
      refine .bind (appCalls_post s _ _) ?_
      rintro _ ⟨n, same, rfl⟩
      refine .ok ⟨s, n, _, rfl, ?_, rfl, ?_⟩
      · exact ⟨same.table, same.ipDevices, same.junk, (Nat.le_succ _).trans same.next⟩
      · rw [List.append_assoc]
        rfl

/-- The record after the peer's `Fin` in state `Established`. -/
def Stream.afterFin (s : Stream σ) : Stream σ :=
  { s with ackSeq := s.ackSeq + 1, needsAck := false, state := .lastAck }

/-- The answer to the peer's `Fin`. -/
def Stream.finEvent (s : Stream σ) (flags : BitVec 8) : TcpEvent :=
  .segment s.addr (headerFromStream { s with ackSeq := s.ackSeq + 1 } flags).1 []

theorem fin_established (dev : NetDevice) (hstate : s.state = .established) :
    fin dev (some s) k =
      transmitSegment (headerFromStream { s with ackSeq := s.ackSeq + 1 }
          (TcpFlag.fin ||| TcpFlag.ack)).1 (fun _ => 0) 0 s.remoteAddr dev k.net >>=
        fun n => .ok (some s.afterFin,
          { k with net := n, log := k.log ++ [s.finEvent (TcpFlag.fin ||| TcpFlag.ack)] }) := by
  have hwait : s.state ≠ .finWait2 := by
    rw [hstate]
    decide
  rw [transmitSegment, bind_assoc]
  change (if s.state = .finWait2 then _ else if s.state = .established then _ else _) = _
  rw [if_neg hwait, if_pos hstate]
  rfl

theorem fin_finWait2 (dev : NetDevice) (hstate : s.state = .finWait2) :
    fin dev (some s) k =
      transmitSegment (headerFromStream { s with ackSeq := s.ackSeq + 1 } TcpFlag.ack).1
          (fun _ => 0) 0 s.remoteAddr dev k.net >>= fun n =>
        removeStream { s with ackSeq := s.ackSeq + 1, needsAck := false, state := .timeWait }
            { k with net := n, log := k.log ++ [s.finEvent TcpFlag.ack] } >>= fun k =>
          .ok (none, k) := by
  rw [transmitSegment, bind_assoc]
  change (if s.state = .finWait2 then _ else if s.state = .established then _ else _) = _
  rw [if_pos hstate]
  rfl

theorem fin_other (dev : NetDevice) (hwait : s.state ≠ .finWait2) (hest : s.state ≠ .established) :
    fin dev (some s) k = .ok (some s, k) := by
  change (if s.state = .finWait2 then _ else if s.state = .established then _ else _) = _
  rw [if_neg hwait, if_neg hest]
  rfl

theorem fin_post (dev : NetDevice) (p : Option (Stream σ)) :
    (fin dev p k).Post fun r => ∃ s, p = some s ∧
      (s.state = .finWait2 ∧ (∃ n, k.net.SameTables n ∧ r = (none, { k with
          net := n
          allStreams := Keyed.erase Stream.addr s.addr k.allStreams
          log := k.log ++ [s.finEvent TcpFlag.ack, .freed s.addr s.buffered] })) ∨
        s.state = .established ∧ (∃ n, k.net.SameTables n ∧ r = (some s.afterFin, { k with
          net := n
          log := k.log ++ [s.finEvent (TcpFlag.fin ||| TcpFlag.ack)] })) ∨
        s.state ≠ .finWait2 ∧ s.state ≠ .established ∧ r = (some s, k)) := by
  cases p with
  | none => exact .error
  | some s =>
      by_cases hwait : s.state = .finWait2
      · rw [fin_finWait2 s k dev hwait]
        refine .bind (transmitSegment_sameTables _ _ _ _ _ _) fun n₁ same₁ => ?_
        refine .bind (removeStream_post _ _) ?_
        rintro _ ⟨n₂, same₂, rfl⟩
        refine .ok ⟨s, rfl, Or.inl ⟨hwait, n₂, same₁.trans same₂, ?_⟩⟩
        rw [List.append_assoc]
        rfl
      · by_cases hest : s.state = .established
        · rw [fin_established s k dev hest]
          exact .bind (transmitSegment_sameTables _ _ _ _ _ _) fun n same =>
            .ok ⟨s, rfl, Or.inr (Or.inl ⟨hest, n, same, rfl⟩)⟩
        · rw [fin_other s k dev hwait hest]
          exact .ok ⟨s, rfl, Or.inr (Or.inr ⟨hwait, hest, rfl⟩)⟩

/-- The number of payload bytes that `tcp_segment` computes. -/
def payloadLen (hdr : TcpHdr) (sz : BitVec 32) : BitVec 32 := sz - 4 * hdr.offset.setWidth 32

end BadOs
