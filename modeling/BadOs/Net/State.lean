import BadOs.Net.Ip

/-!
# The state of TCP and UDP

`σ` is the state of the applications. A read function answers a chunk of data with
calls of `tcp_send` and `tcp_close` on the stream that it was given, and a UDP
callback with calls of `udp_send`; neither can do anything else with the `stream`,
which is an incomplete type outside `tcp.c`.

The kernel also carries the events that the properties of the protocol speak about.
No function reads them.
-/

namespace BadOs

inductive TcpState where
  | closed
  | listen
  | synReceived
  | synSent
  | established
  | finWait1
  | finWait2
  | closing
  | timeWait
  | closeWait
  | lastAck
  deriving DecidableEq, Repr

/-- A call that a read function makes on its stream. -/
inductive AppCall where
  | tcpSend (data : ByteMem) (sz : BitVec 16)
  | tcpClose

/-- `tcp_read_fn`. The second argument is the content of the heap that the function
may allocate, the others are the data and their number. -/
abbrev TcpReadFn (σ : Type) := σ → ByteMem → ByteMem → BitVec 32 → σ × List AppCall

/-- `struct stream_t`; `addr` tells the records apart, and the place in the list of
all streams stands for `next`. -/
structure Stream (σ : Type) where
  addr : Nat
  dev : NetDevice
  localPort : BitVec 16
  remotePort : BitVec 16
  localAddr : BitVec 32
  remoteAddr : BitVec 32
  localSeq : BitVec 32
  pendingAck : BitVec 32
  ackSeq : BitVec 32
  needsAck : Bool
  state : TcpState
  readBuf : ByteMem
  readOffset : BitVec 32
  readMax : BitVec 32
  readFn : TcpReadFn σ

/-- `struct listen_state_t`. -/
structure ListenState (σ : Type) where
  port : BitVec 16
  accept : σ → σ × TcpReadFn σ

/-- `tcp_hdr`. Its last two bytes are padding. -/
structure TcpHdr where
  srcPort : BitVec 16
  destPort : BitVec 16
  sequence : BitVec 32
  ack : BitVec 32
  reserved : BitVec 4
  offset : BitVec 4
  flags : BitVec 8
  window : BitVec 16
  chksum : BitVec 16
  deriving DecidableEq

namespace TcpHdr

/-- The header at the start of a segment. The fields hold what the processor loads,
in network byte order. -/
def load (m : ByteMem) : TcpHdr where
  srcPort := m.read 0 2
  destPort := m.read 2 2
  sequence := m.read 4 4
  ack := m.read 8 4
  reserved := (m 12).extractLsb' 0 4
  offset := (m 12).extractLsb' 4 4
  flags := m 13
  window := m.read 14 2
  chksum := m.read 16 2

/-- Store every field of the header at `a`. -/
def store (h : TcpHdr) (a : Nat) (m : ByteMem) : ByteMem :=
  let m := m.write a 2 h.srcPort
  let m := m.write (a + 2) 2 h.destPort
  let m := m.write (a + 4) 4 h.sequence
  let m := m.write (a + 8) 4 h.ack
  let m := m.write (a + 12) 1 (h.offset ++ h.reserved : BitVec 8)
  let m := m.write (a + 13) 1 h.flags
  let m := m.write (a + 14) 2 h.window
  m.write (a + 16) 2 h.chksum

end TcpHdr

namespace TcpFlag

def fin : BitVec 8 := 0x01

def syn : BitVec 8 := 0x02

def rst : BitVec 8 := 0x04

def psh : BitVec 8 := 0x08

def ack : BitVec 8 := 0x10

end TcpFlag

/-- `hdr->flags & flag`. -/
def TcpHdr.has (h : TcpHdr) (flag : BitVec 8) : Bool := h.flags &&& flag != 0

/-- `udp_quad`. -/
structure UdpQuad where
  srcAddr : BitVec 32
  dstAddr : BitVec 32
  srcPort : BitVec 16
  dstPort : BitVec 16
  deriving DecidableEq

/-- A call of `udp_send` that a UDP callback makes. -/
structure UdpCall where
  quad : UdpQuad
  data : ByteMem
  size : BitVec 32

/-- `udp_notify`. -/
abbrev UdpNotify (σ : Type) := σ → UdpQuad → ByteMem → BitVec 32 → σ × List UdpCall

/-- `struct udp_listening_port`. -/
structure UdpListeningPort (σ : Type) where
  port : BitVec 16
  cb : UdpNotify σ

/-- What happens on a stream, for the record. -/
inductive TcpEvent where
  /-- A segment of the stream was sent, with this header and payload. -/
  | segment (addr : Nat) (hdr : TcpHdr) (payload : List (BitVec 8))
  /-- The read function of the stream got these bytes. -/
  | read (addr : Nat) (chunk : List (BitVec 8))
  /-- The stream was freed with these bytes still in its buffer. -/
  | freed (addr : Nat) (rest : List (BitVec 8))

def TcpEvent.addr : TcpEvent → Nat
  | .segment a _ _ => a
  | .read a _ => a
  | .freed a _ => a

structure Kernel (σ : Type) where
  net : Net
  allStreams : List (Stream σ)
  allListeners : List (ListenState σ)
  listeningPorts : List (UdpListeningPort σ)
  app : σ
  log : List TcpEvent

/-- Before the first call no table has an entry. -/
def Kernel.boot {σ : Type} (junk : Nat → ByteMem) (app : σ) : Kernel σ where
  net := ⟨⟨[], Nat.zero_le _⟩, .zero, 0, junk, [], []⟩
  allStreams := []
  allListeners := []
  listeningPorts := []
  app := app
  log := []

end BadOs
