import BadOs.Net.State

/-!
# UDP
-/

namespace BadOs

variable {σ : Type}

/-- The sum is cut to the 16 bits of the parameter of `ip_sbuff_alloc`. -/
def udpSbuffAlloc (size : BitVec 32) (n : Net) : Except Trap (SBuff × Net) := do
  let (p, n) ← ipSbuffAlloc ((size + sizeofUdpHeader).setWidth 16) n
  let p ← sbuffPush p sizeofUdpHeader
  return (p, n)

/-- The stores of `udp_send` to `struct udp_header_t` at `head`. The checksum covers
`size` bytes from the header on. -/
def udpFields (head : Nat) (srcPort dstPort : BitVec 16) (size : BitVec 32) (m : ByteMem) :
    ByteMem :=
  let m := m.write head 2 (ntos srcPort)
  let m := m.write (head + 2) 2 (ntos dstPort)
  let m := m.write (head + 4) 2 (ntos (size.setWidth 16))
  checksum m head size.toNat (head + 6)

def udpSend (quad : UdpQuad) (data : ByteMem) (size : BitVec 32) (n : Net) :
    Except Trap (Errno × Net) := do
  let (sb, n) ← udpSbuffAlloc size n
  let sb ← sb.store sb.head size.toNat fun m => m.copy sb.head data 0 size.toNat
  match ← ipResolveLocal quad.srcAddr n with
  | none => return (.invalid, n)
  | some dev => do
      let sb ← sbuffPop sb sizeofUdpHeader
      let sb ← sb.store sb.head sizeofUdpHeader
        (udpFields sb.head quad.srcPort quad.dstPort size)
      ipSend sb 17 quad.dstAddr dev n

/-- The calls of `udp_send` that a callback makes. -/
def udpCalls : List UdpCall → Net → Except Trap Net
  | [], n => .ok n
  | c :: calls, n => do
      let (_, n) ← udpSend c.quad c.data c.size n
      udpCalls calls n

/-- The loop over the listening ports. The length passed on is that of the whole
datagram, header included. -/
def udpNotify (dev : NetDevice) (data : ByteMem) (srcIp : BitVec 32) :
    List (UdpListeningPort σ) → Kernel σ → Except Trap (Kernel σ)
  | [], k => .ok k
  | p :: ports, k =>
      let srcPort : BitVec 16 := data.read 0 2
      let destPort : BitVec 16 := data.read 2 2
      let len : BitVec 16 := data.read 4 2
      if ntos destPort = p.port then do
        let quad : UdpQuad := {
          dstPort := ntos destPort
          dstAddr := ntol dev.ip
          srcPort := ntos srcPort
          srcAddr := srcIp }
        let (app, calls) := p.cb k.app quad (data.shift sizeofUdpHeader) ((ntos len).setWidth 32)
        let n ← udpCalls calls k.net
        udpNotify dev data srcIp ports { k with net := n, app := app }
      else udpNotify dev data srcIp ports k

def udpDatagram (dev : NetDevice) (data : ByteMem) (srcIp : BitVec 32) (k : Kernel σ) :
    Except Trap (Kernel σ) :=
  udpNotify dev data srcIp k.listeningPorts k

def udpListen (port : BitVec 32) (onRead : UdpNotify σ) (k : Kernel σ) : Errno × Kernel σ :=
  let (_, n) := k.net.kmemAlloc
  let (_, n) := n.kmemAlloc
  (.ok, { k with net := n, listeningPorts := k.listeningPorts ++ [⟨port.setWidth 16, onRead⟩] })

end BadOs
