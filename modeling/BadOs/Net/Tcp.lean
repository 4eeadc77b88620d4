import BadOs.Data.Keyed
import BadOs.Net.State

/-!
# TCP

A function that works on a stream takes and returns the record itself; the list of
all streams gets the new record back when `tcp_segment` is done with it. A stream
that was freed on the way is `none`, and reading a field of it is a trap.
-/

namespace BadOs

variable {σ : Type}

/-! ## Sending -/

/-- The pseudo-header is built in the bytes before the header, which the IP header
will overwrite. -/
def tcpChecksum (sb : SBuff) (len : BitVec 16) (src dest : BitVec 32) : Except Trap SBuff :=
  let pseudo := sb.head - sizeofTcpPseudoHdr
  sb.store pseudo (sizeofTcpPseudoHdr + 18) fun m =>
    let m := m.write pseudo 4 (ntol src)
    let m := m.write (pseudo + 4) 4 (ntol dest)
    let m := m.write (pseudo + 8) 1 (0 : BitVec 8)
    let m := m.write (pseudo + 9) 1 (6 : BitVec 8)
    let m := m.write (pseudo + 10) 2 (ntos len)
    checksum m pseudo (sizeofTcpPseudoHdr + len.toNat) (sb.head + 16)

def headerFromStream (s : Stream σ) (flags : BitVec 8) : TcpHdr × Stream σ :=
  ({ srcPort := ntos s.localPort
     destPort := ntos s.remotePort
     sequence := ntol s.localSeq
     ack := ntol s.ackSeq
     reserved := 0
     offset := 5
     flags := flags ||| if s.needsAck then TcpFlag.ack else 0
     window := ntos ((s.readMax - s.readOffset).setWidth 16)
     chksum := 0 },
    { s with needsAck := false })

/-- What every sending function does with its new buffer: store the header and the
payload, compute the checksum, and call `ip_send`, whose result nobody looks at. -/
def sendSegment (sb : SBuff) (hdr : TcpHdr) (data : ByteMem) (sz : BitVec 16) (dest : BitVec 32)
    (dev : NetDevice) (n : Net) : Except Trap Net := do
  let sb ← sb.store sb.head sizeofTcpHdr (hdr.store sb.head)
  let sb ← sb.store (sb.head + sizeofTcpHdr) sz.toNat fun m =>
    m.copy (sb.head + sizeofTcpHdr) data 0 sz.toNat
  let sb ← tcpChecksum sb (sizeofTcpHdr + sz) dev.ip dest
  let (_, n) ← ipSend sb 6 dest dev n
  return n

/-- The initialiser of the local `stream` has one value too few before `srcIp`: the
device's address lands in `remotePort` and the port in `localAddr`. -/
def resetStream (dev : NetDevice) (hdr : TcpHdr) (srcIp : BitVec 32) (k : Kernel σ) :
    Except Trap (Kernel σ) := do
  let stream : Stream σ := {
    addr := 0
    dev := dev
    localPort := ntos hdr.destPort
    remotePort := (ntol dev.ip).setWidth 16
    localAddr := (ntos hdr.srcPort).setWidth 32
    remoteAddr := srcIp
    localSeq := 0
    pendingAck := 0
    ackSeq := 0
    needsAck := true
    state := .closed
    readBuf := fun _ => 0
    readOffset := 0
    readMax := 0
    readFn := fun app _ _ _ => (app, []) }
  let (sb, n) ← ipSbuffAlloc sizeofTcpHdr k.net
  let n ← sendSegment sb (headerFromStream stream TcpFlag.rst).1 (fun _ => 0) 0 srcIp dev n
  return { k with net := n }

def maxReadBuffer : BitVec 32 := 2048

/-- The record of a new stream, in memory that holds `junk`: `pendingAck` and the
buffer behind the record are not initialised. -/
def newStream (addr : Nat) (junk : ByteMem) (dev : NetDevice) (localPort remotePort : BitVec 16)
    (remoteAddr ackSeq : BitVec 32) (fn : TcpReadFn σ) : Stream σ where
  addr := addr
  dev := dev
  localPort := localPort
  remotePort := remotePort
  localAddr := dev.ip
  remoteAddr := remoteAddr
  localSeq := 1
  pendingAck := junk.read 32 4
  ackSeq := ackSeq + 1
  needsAck := false
  state := .synReceived
  readBuf := junk.shift 72
  readOffset := 0
  readMax := maxReadBuffer
  readFn := fn

def connected (dev : NetDevice) (localPort remotePort : BitVec 16) (remoteAddr ackSeq : BitVec 32)
    (fn : TcpReadFn σ) (k : Kernel σ) : Except Trap (Kernel σ) := do
  let (sb, n) ← ipSbuffAlloc sizeofTcpHdr k.net
  let (addr, n) := n.kmemAlloc
  let s := newStream addr (n.junk addr) dev localPort remotePort remoteAddr ackSeq fn
  let (hdr, s) := headerFromStream s (TcpFlag.syn ||| TcpFlag.ack)
  let s := { s with localSeq := s.localSeq + 1 }
  let n ← sendSegment sb hdr (fun _ => 0) 0 remoteAddr dev n
  return { k with
    net := n
    allStreams := s :: k.allStreams
    log := k.log ++ [.segment addr hdr []] }

def tcpClose (s : Stream σ) (k : Kernel σ) : Except Trap (Stream σ × Kernel σ) := do
  let (sb, n) ← ipSbuffAlloc sizeofTcpHdr k.net
  let (hdr, s) := headerFromStream s TcpFlag.fin
  let s := { s with state := .finWait1 }
  let n ← sendSegment sb hdr (fun _ => 0) 0 s.remoteAddr s.dev n
  return ({ s with localSeq := s.localSeq + 1 },
    { k with net := n, log := k.log ++ [.segment s.addr hdr []] })

def tcpSend (s : Stream σ) (data : ByteMem) (sz : BitVec 16) (k : Kernel σ) :
    Except Trap (Stream σ × Kernel σ) := do
  let (sb, n) ← ipSbuffAlloc (sizeofTcpHdr + sz) k.net
  let (hdr, s) := headerFromStream s TcpFlag.psh
  let n ← sendSegment sb hdr data sz s.remoteAddr s.dev n
  return ({ s with localSeq := s.localSeq + sz.setWidth 32 },
    { k with net := n, log := k.log ++ [.segment s.addr hdr (data.slice 0 sz.toNat)] })

/-! ## Receiving -/

/-- A field of the stream is used. -/
def deref (p : Option (Stream σ)) : Except Trap (Stream σ) :=
  match p with
  | some s => .ok s
  | none => .error .useAfterFree

/-- The stream leaves the list and is freed. -/
def removeStream (s : Stream σ) (k : Kernel σ) : Except Trap (Kernel σ) := do
  let n ← k.net.kmemFree s.addr
  return { k with
    net := n
    allStreams := Keyed.erase Stream.addr s.addr k.allStreams
    log := k.log ++ [.freed s.addr (s.readBuf.slice 0 s.readOffset.toNat)] }

/-- The comparison is made in network byte order. -/
def acked (s : Stream σ) (hdr : TcpHdr) (k : Kernel σ) :
    Except Trap (Option (Stream σ) × Kernel σ) := do
  let s := if s.pendingAck ≤ hdr.ack then { s with pendingAck := hdr.ack } else s
  let s := if s.state = .synReceived then { s with state := .established } else s
  let s := if s.state = .finWait1 then { s with state := .finWait2 } else s
  if s.state = .lastAck then do
    let k ← removeStream s k
    return (none, k)
  else return (some s, k)

/-- The space check is a 32-bit sum; the copy itself is not checked. -/
def bufferData (hdr : TcpHdr) (data : ByteMem) (p : Option (Stream σ)) (len : BitVec 32) :
    Except Trap (Option (Stream σ)) :=
  if len = 0 then .ok p
  else do
    let s ← deref p
    if s.readMax < s.readOffset + len then return some s
    else if s.readMax.toNat < s.readOffset.toNat + len.toNat then .error .outOfBounds
    else return some { s with
      ackSeq := ntol hdr.sequence + len
      readBuf := s.readBuf.copy s.readOffset.toNat data (4 * hdr.offset.toNat) len.toNat
      readOffset := s.readOffset + len
      needsAck := true }

/-- The calls of a read function on its stream, one after the other. -/
def appCalls (s : Stream σ) : List AppCall → Kernel σ → Except Trap (Stream σ × Kernel σ)
  | [], k => .ok (s, k)
  | .tcpSend data sz :: calls, k => do
      let (s, k) ← tcpSend s data sz k
      appCalls s calls k
  | .tcpClose :: calls, k => do
      let (s, k) ← tcpClose s k
      appCalls s calls k

def pushit (p : Option (Stream σ)) (k : Kernel σ) :
    Except Trap (Option (Stream σ) × Kernel σ) := do
  let s ← deref p
  let (heap, n) := (k.net.junk k.net.next, { k.net with next := k.net.next + 1 })
  let (app, calls) := s.readFn k.app heap s.readBuf s.readOffset
  let (s, k) ← appCalls s calls { k with
    net := n
    app := app
    log := k.log ++ [.read s.addr (s.readBuf.slice 0 s.readOffset.toNat)] }
  return (some { s with readOffset := 0 }, k)

def timeWait (s : Stream σ) (k : Kernel σ) : Except Trap (Kernel σ) := removeStream s k

def fin (dev : NetDevice) (p : Option (Stream σ)) (k : Kernel σ) :
    Except Trap (Option (Stream σ) × Kernel σ) := do
  let s ← deref p
  if s.state = .finWait2 then do
    let (sb, n) ← ipSbuffAlloc sizeofTcpHdr k.net
    let s := { s with ackSeq := s.ackSeq + 1 }
    let (hdr, s) := headerFromStream s TcpFlag.ack
    let n ← sendSegment sb hdr (fun _ => 0) 0 s.remoteAddr dev n
    let s := { s with state := .timeWait }
    let k ← timeWait s { k with net := n, log := k.log ++ [.segment s.addr hdr []] }
    return (none, k)
  else if s.state = .established then do
    let (sb, n) ← ipSbuffAlloc sizeofTcpHdr k.net
    let s := { s with ackSeq := s.ackSeq + 1 }
    let (hdr, s) := headerFromStream s (TcpFlag.fin ||| TcpFlag.ack)
    let n ← sendSegment sb hdr (fun _ => 0) 0 s.remoteAddr dev n
    return (some { s with state := .lastAck },
      { k with net := n, log := k.log ++ [.segment s.addr hdr []] })
  else return (some s, k)

/-- The test of the loop in `find`. -/
def Stream.isFor (s : Stream σ) (dev : NetDevice) (src : BitVec 32) (hdr : TcpHdr) : Bool :=
  s.localAddr == dev.ip && s.remoteAddr == src && s.localPort == ntos hdr.destPort &&
    s.remotePort == ntos hdr.srcPort

def find (dev : NetDevice) (src : BitVec 32) (hdr : TcpHdr) (allStreams : List (Stream σ)) :
    Option (Stream σ) :=
  allStreams.find? fun s => s.isFor dev src hdr

def syn (dev : NetDevice) (hdr : TcpHdr) (srcIp : BitVec 32) (k : Kernel σ) :
    Except Trap (Kernel σ) :=
  match k.allListeners.find? fun l => l.port == ntos hdr.destPort with
  | none => resetStream dev hdr srcIp k
  | some l =>
      let (app, fn) := l.accept k.app
      connected dev (ntos hdr.destPort) (ntos hdr.srcPort) srcIp (ntol hdr.sequence) fn
        { k with app := app }

def tcpListen (port : BitVec 16) (accept : σ → σ × TcpReadFn σ) (k : Kernel σ) :
    Errno × Kernel σ :=
  if k.allListeners.any fun l => l.port == port then (.addrInUse, k)
  else
    let (_, n) := k.net.kmemAlloc
    (.ok, { k with net := n, allListeners := ⟨port, accept⟩ :: k.allListeners })

/-- The stream is stored back into the list, if it is still there. -/
def Kernel.putStream (k : Kernel σ) (p : Option (Stream σ)) : Kernel σ :=
  match p with
  | some s => { k with allStreams := Keyed.replace Stream.addr s k.allStreams }
  | none => k

/-- The part of `tcp_segment` that is about one stream. -/
def serve (dev : NetDevice) (data : ByteMem) (sz : BitVec 32) (s : Stream σ) (k : Kernel σ) :
    Except Trap (Kernel σ) := do
  let hdr := TcpHdr.load data
  let (p, k) ← (if hdr.has TcpFlag.ack then acked s hdr k else .ok (some s, k))
  let p ← bufferData hdr data p (sz - 4 * hdr.offset.setWidth 32)
  let (p, k) ← (if hdr.has TcpFlag.psh then pushit p k else .ok (p, k))
  let (p, k) ← (if hdr.has TcpFlag.fin then fin dev p k else .ok (p, k))
  return k.putStream p

def tcpSegment (dev : NetDevice) (data : ByteMem) (sz srcIp : BitVec 32) (k : Kernel σ) :
    Except Trap (Kernel σ) := do
  let hdr := TcpHdr.load data
  let k ← (if hdr.has TcpFlag.syn then syn dev hdr srcIp k else .ok k)
  match find dev srcIp hdr k.allStreams with
  | none => resetStream dev hdr srcIp k
  | some s => serve dev data sz s k

end BadOs
