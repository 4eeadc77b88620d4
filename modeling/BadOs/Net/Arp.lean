import BadOs.Net.Buffer
import BadOs.Util.Map

/-!
# Ethernet output and ARP

`Net` is everything below TCP and UDP: the ARP table, the map of devices, the
packet buffers on the heap and the frames that were handed to a device. The heap
always finds room here; what an object holds when it is allocated is arbitrary.
-/

namespace BadOs

/-- `static struct arp_table table`. -/
structure ArpTable where
  entries : List (BitVec 32 × Mac)
  bound : entries.length ≤ 128

structure Net where
  table : ArpTable
  ipDevices : MapT NetDevice
  /-- The address that `kmem_alloc` returns next. -/
  next : Nat
  /-- What the object at an address holds when it is allocated. -/
  junk : Nat → ByteMem
  /-- The allocated objects that were not freed. -/
  live : List Nat
  /-- The buffers handed to `device->send`, in order. -/
  sent : List (NetDevice × SBuff)

namespace Net

def kmemAlloc (n : Net) : Nat × Net :=
  (n.next, { n with next := n.next + 1, live := n.next :: n.live })

def kmemFree (n : Net) (p : Nat) : Except Trap Net :=
  if p ∈ n.live then .ok { n with live := n.live.erase p } else .error .useAfterFree

end Net

def addRef (s : SBuff) : SBuff := { s with refs := s.refs + 1 }

/-- `release_ref(s, sbuff_free)`. -/
def releaseRef (s : SBuff) (n : Net) : Except Trap Net :=
  if s.refs - 1 = 0 then n.kmemFree s.addr else .ok n

/-! ## Buffers and Ethernet -/

def rawSbuffAlloc (size : BitVec 16) (n : Net) : SBuff × Net :=
  let (addr, n) := n.kmemAlloc
  (⟨addr, size, size, 0, 0, n.junk addr, Nat.zero_add _⟩, n)

def ethernetSbuffAlloc (size : BitVec 16) (n : Net) : Except Trap (SBuff × Net) := do
  let (p, n) := rawSbuffAlloc (size + sizeofEthernetFrame) n
  let p ← sbuffPush p sizeofEthernetFrame
  return (p, n)

/-- `device->send(device, sbuff)`, as far as the buffer goes. The driver takes a reference,
transmits from its task and releases the reference; what happens in between does not touch
the buffer. The driver's own record and task are those of `ne2kSend`, which gets every frame of
`sent` in `Machine`. -/
def deviceSend (device : NetDevice) (s : SBuff) (n : Net) : Except Trap Net :=
  releaseRef (addRef s) { n with sent := n.sent ++ [(device, s)] }

/-- The stores of `ethernet_send` to `struct ethernet_frame` at `head`. -/
def ethernetHeader (head : Nat) (proto : BitVec 16) (dest source : Mac) (m : ByteMem) : ByteMem :=
  let m := m.write head 6 dest
  let m := m.write (head + 6) 6 source
  m.write (head + 12) 2 (ntos proto)

def ethernetSend (s : SBuff) (proto : BitVec 16) (dest : Mac) (device : NetDevice) (n : Net) :
    Except Trap Net := do
  let s ← sbuffPop s sizeofEthernetFrame
  let s ← s.store s.head sizeofEthernetFrame (ethernetHeader s.head proto dest device.mac)
  deviceSend device s n

/-! ## ARP -/

def broadcastMac : Mac := BitVec.allOnes 48

/-- The stores to `struct arp_packet` at `head` that `reply` and `arp_request` make. -/
def arpFields (head : Nat) (operation : BitVec 16) (senderMac : Mac) (senderIp : BitVec 32)
    (targetMac : Mac) (targetIp : BitVec 32) (m : ByteMem) : ByteMem :=
  let m := m.write head 2 (ntos 1)
  let m := m.write (head + 2) 2 (ntos 0x0800)
  let m := m.write (head + 4) 1 (6 : BitVec 8)
  let m := m.write (head + 5) 1 (4 : BitVec 8)
  let m := m.write (head + 6) 2 (ntos operation)
  let m := m.write (head + 8) 6 senderMac
  let m := m.write (head + 14) 4 (ntol senderIp)
  let m := m.write (head + 18) 6 targetMac
  m.write (head + 24) 4 (ntol targetIp)

def reply (dev : NetDevice) (target : Mac) (ip : BitVec 32) (broadcast : Bool) (n : Net) :
    Except Trap Net := do
  let (buf, n) := rawSbuffAlloc (BitVec.ofNat 16 (sizeofEthernetFrame + sizeofArpPacket)) n
  let buf ← sbuffPush (addRef buf) sizeofEthernetFrame
  let buf ← buf.store buf.head sizeofArpPacket
    (arpFields buf.head 2 dev.mac dev.ip target ip)
  let n ← ethernetSend buf 0x0806 (if broadcast then broadcastMac else target) dev n
  releaseRef buf n

def arpRequest (device : NetDevice) (targetIp : BitVec 32) (n : Net) : Except Trap Net := do
  let (buf, n) ← ethernetSbuffAlloc sizeofArpPacket n
  let buf := addRef buf
  let buf ← buf.store buf.head sizeofArpPacket
    (arpFields buf.head 1 device.mac device.ip 0 targetIp)
  let n ← ethernetSend buf 0x0806 broadcastMac device n
  releaseRef buf n

def gratuitousArp (device : NetDevice) (n : Net) : Except Trap Net :=
  reply device 0 device.ip true n

/-- The result is the address found, if any; a miss sends a request. -/
def arpLookup (dev : NetDevice) (ip : BitVec 32) (n : Net) : Except Trap (Option Mac × Net) :=
  match n.table.entries.find? fun e => e.1 == ip with
  | some e => .ok (some e.2, n)
  | none => do
      let n ← arpRequest dev ip n
      return (none, n)

/-- The table has no check of its bound. -/
def arpStore (dest : Mac) (ip : BitVec 32) (n : Net) : Except Trap Net :=
  if h : n.table.entries.length < 128 then
    .ok { n with table := ⟨n.table.entries ++ [(ip, dest)], by
      rw [List.length_append, List.length_singleton]; omega⟩ }
  else .error .outOfBounds

/-- The fields of a received `struct arp_packet` that `arp_packet` reads. -/
def arpPacket (dev : NetDevice) (data : ByteMem) (n : Net) : Except Trap Net :=
  let operation : BitVec 16 := data.read 6 2
  let senderMac : Mac := data.read 8 6
  let senderIp : BitVec 32 := data.read 14 4
  let targetIp : BitVec 32 := data.read 24 4
  if ntol targetIp ≠ dev.ip then .ok n
  else if ntos operation = 1 then reply dev senderMac (ntol senderIp) false n
  else arpStore senderMac (ntol senderIp) n

/-! ## The entry of an address -/

/-- The first entry of the table for an address. -/
def Net.macOf (n : Net) (ip : BitVec 32) : Option Mac :=
  (n.table.entries.find? fun e => e.1 == ip).map Prod.snd

/-- A lookup finds the first entry, and then does nothing else. -/
theorem arpLookup_eq_some_iff {dev : NetDevice} {ip : BitVec 32} {n : Net} {mac : Mac} :
    arpLookup dev ip n = .ok (some mac, n) ↔ n.macOf ip = some mac := by
  unfold arpLookup Net.macOf
  cases hfind : n.table.entries.find? fun e => e.1 == ip with
  | some e =>
      constructor
      · rintro ⟨⟩
        rfl
      · rintro ⟨⟩
        rfl
  | none =>
      constructor
      · intro h
        cases hrequest : arpRequest dev ip n with
        | error e =>
            rw [hrequest] at h
            cases h
        | ok n' =>
            rw [hrequest] at h
            cases h
      · rintro ⟨⟩

end BadOs
