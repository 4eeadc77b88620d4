import BadOs.Net.Tcp
import BadOs.Net.Udp

/-!
# Received frames

No length is passed along with a frame: the functions trust the length fields that
they find in it. A frame is the memory from its first byte on.
-/

namespace BadOs

variable {σ : Type}

/-- The stores of `icmp_segment` to the reply at `head`. The payload is copied after
the checksum was taken. -/
def pongFields (head : Nat) (id sequence : BitVec 16) (data : ByteMem) (len : Nat) (m : ByteMem) :
    ByteMem :=
  let m := m.fill head sizeofIcmpHeader 0
  let m := m.write head 1 (0 : BitVec 8)
  let m := m.write (head + 1) 1 (0 : BitVec 8)
  let m := m.write (head + 4) 2 id
  let m := m.write (head + 6) 2 sequence
  let m := m.write (head + 2) 2 (0 : BitVec 16)
  let m := checksum m head len (head + 2)
  m.copy (head + sizeofIcmpHeader) data sizeofIcmpHeader (len - sizeofIcmpHeader)

def icmpSegment (sender : BitVec 32) (dev : NetDevice) (data : ByteMem) (len : BitVec 16)
    (n : Net) :
    Except Trap Net :=
  let type := data 0
  let id : BitVec 16 := data.read 4 2
  let sequence : BitVec 16 := data.read 6 2
  if len < sizeofIcmpHeader then .ok n
  else if type = 8 then do
    let (buf, n) ← ipSbuffAlloc len n
    let buf := addRef buf
    let buf ← buf.store buf.head len.toNat (pongFields buf.head id sequence data len.toNat)
    let (_, n) ← ipSend buf 1 sender dev n
    releaseRef buf n
  else .ok n

/-- The fields of `struct ipv4_header` that `ip_packet` reads. -/
structure Ipv4Header where
  ihl : BitVec 4
  totalLen : BitVec 16
  proto : BitVec 8
  src : BitVec 32
  deriving DecidableEq

def Ipv4Header.load (m : ByteMem) : Ipv4Header where
  ihl := (m 0).extractLsb' 0 4
  totalLen := m.read 2 2
  proto := m 9
  src := m.read 12 4

/-- `ip->ihl * 4`. -/
def Ipv4Header.hdrLen (ip : Ipv4Header) : BitVec 16 := ip.ihl.setWidth 16 * 4

/-- The first lines of `ip_packet`: the map of devices is set up on the first packet,
and every packet enters its device. -/
def registerDevice (dev : NetDevice) (n : Net) : Except Trap Net :=
  ipAddDevice dev { n with
    ipDevices := if n.ipDevices.data.isNone then mapInit mapIntHash else n.ipDevices }

def ipPacket (dev : NetDevice) (data : ByteMem) (k : Kernel σ) : Except Trap (Kernel σ) := do
  let ip := Ipv4Header.load data
  let n ← registerDevice dev k.net
  let k := { k with net := n }
  let payload := data.shift ip.hdrLen.toNat
  if ip.proto = 1 then do
    let n ← icmpSegment (ntol ip.src) dev payload (ntos ip.totalLen - ip.hdrLen) k.net
    return { k with net := n }
  else if ip.proto = 6 then
    -- an `int` difference that becomes a `uint32_t`
    tcpSegment dev payload ((ntos ip.totalLen).setWidth 32 - ip.hdrLen.setWidth 32)
      (ntol ip.src) k
  else if ip.proto = 17 then udpDatagram dev payload (ntol ip.src) k
  else return k

def ethernetPacket (dev : NetDevice) (data : ByteMem) (k : Kernel σ) : Except Trap (Kernel σ) :=
  let sizeOrType : BitVec 16 := data.read 12 2
  if ntos sizeOrType = 0x0800 then ipPacket dev (data.shift sizeofEthernetFrame) k
  else if ntos sizeOrType = 0x0806 then do
    let n ← arpPacket dev (data.shift sizeofEthernetFrame) k.net
    return { k with net := n }
  else .ok k

end BadOs
