import BadOs.Net.Arp

/-!
# IP output and the table of devices
-/

namespace BadOs

def ipSbuffAlloc (size : BitVec 16) (n : Net) : Except Trap (SBuff × Net) := do
  let (p, n) ← ethernetSbuffAlloc (size + sizeofIpv4Header) n
  let p ← sbuffPush p sizeofIpv4Header
  return (p, n)

/-- The stores of `ip_send` to `struct ipv4_header` at `head`. Version 4 and five
words share the first byte. -/
def ipv4Fields (head : Nat) (len : BitVec 16) (proto : BitVec 8) (src dest : BitVec 32)
    (m : ByteMem) : ByteMem :=
  let m := m.write head 1 (0x45 : BitVec 8)
  let m := m.write (head + 1) 1 (0 : BitVec 8)
  let m := m.write (head + 2) 2 (ntos len)
  let m := m.write (head + 4) 2 (0 : BitVec 16)
  let m := m.write (head + 6) 2 (0 : BitVec 16)
  let m := m.write (head + 8) 1 (64 : BitVec 8)
  let m := m.write (head + 9) 1 proto
  let m := m.write (head + 10) 2 (0 : BitVec 16)
  let m := m.write (head + 12) 4 (ntol src)
  let m := m.write (head + 16) 4 (ntol dest)
  checksum m head sizeofIpv4Header (head + 10)

def ipSend (s : SBuff) (proto : BitVec 8) (dest : BitVec 32) (device : NetDevice) (n : Net) :
    Except Trap (Errno × Net) := do
  let s ← sbuffPop s sizeofIpv4Header
  let s ← s.store s.head sizeofIpv4Header (ipv4Fields s.head s.currSize proto device.ip dest)
  let (destMac, n) ← arpLookup device dest n
  match destMac with
  | some mac => do
      let n ← ethernetSend s 0x0800 mac device n
      return (.ok, n)
  | none => return (.notFound, n)

def ipAddDevice (dev : NetDevice) (n : Net) : Except Trap Net := do
  let devices ← mapAdd n.ipDevices dev.ip dev
  return { n with ipDevices := devices }

def ipResolveLocal (addr : BitVec 32) (n : Net) : Except Trap (Option NetDevice) :=
  mapLookup n.ipDevices (ntol addr)

end BadOs
