import BadOs.Net.Packet
import BadOs.Strings

/-!
# The services: TCP and UDP echo on port 7, HTTP on port 80
-/

namespace BadOs

/-! ## `common.c` -/

/-- The loop of `to_str`: the digits of `d` from `p` on, last one first. A 32-bit
number has no more than ten. -/
def toStrLoop : (fuel : Nat) → (d : BitVec 32) → (m : ByteMem) → (p : Nat) → ByteMem × Nat
  | 0, _, m, p => (m, p)
  | fuel + 1, d, m, p =>
      if d = 0 then (m, p)
      else toStrLoop fuel (d / 10) (m.write p 1 ((d % 10).setWidth 8 + 48)) (p + 1)

/-- `strrev` of the bytes from `str` to `last`. -/
def strrev : (fuel : Nat) → (m : ByteMem) → (str last : Nat) → ByteMem
  | 0, m, _, _ => m
  | fuel + 1, m, str, last =>
      if str < last then
        strrev fuel ((m.write str 1 (m last)).write last 1 (m str)) (str + 1) (last - 1)
      else m

/-- The result is the address behind the digits; for zero it is one further on. -/
def toStr (d : BitVec 32) (m : ByteMem) (buff : Nat) : ByteMem × Nat :=
  if d = 0 then ((m.write buff 1 (48 : BitVec 8)).write (buff + 1) 1 (0 : BitVec 8), buff + 2)
  else
    let (m, p) := toStrLoop 10 d m buff
    (strrev 5 (m.write p 1 (0 : BitVec 8)) buff (p - 1), p)

/-- A string literal in memory, with its terminating zero. -/
def stringMem (s : String) : ByteMem := fun i =>
  ((s.toList.map fun c => BitVec.ofNat 8 c.toNat)[i]?).getD 0

/-! ## The state of the services -/

/-- What `read` of `fs/vfs.h` stores in a buffer of 256 bytes, and its result. -/
structure FileRead where
  count : BitVec 32
  body : ByteMem
  count_le : count.msb = false → count.toNat ≤ 256

/-- The results of the calls of `read`, in order, and how many were made. -/
structure Services where
  file : Nat → FileRead
  reads : Nat

/-! ## `service/echo.c` -/

def tcpEchoRead : TcpReadFn Services := fun app _ data sz =>
  (app, [.tcpSend data (sz.setWidth 16)])

def tcpEchoAccept : Services → Services × TcpReadFn Services := fun app => (app, tcpEchoRead)

def udpEchoNotify : UdpNotify Services := fun app quad data sz =>
  let reverse : UdpQuad := {
    srcPort := quad.dstPort
    srcAddr := quad.dstAddr
    dstPort := quad.srcPort
    dstAddr := quad.srcAddr }
  (app, [⟨reverse, data, sz⟩])

def initEcho (k : Kernel Services) : Kernel Services :=
  (udpListen 7 udpEchoNotify (tcpListen 7 tcpEchoAccept k).2).2

/-! ## `service/http.c` -/

def httpHeader : String := "HTTP/1.1 200 OK\r\nContent-Type: text/html\r\nContent-Length: "

def httpSeparator : String := "\r\n\r\n"

/-- The response that `http_read` builds in memory that holds `heap`. Its size does
not count the digits. -/
def httpResponse (heap body : ByteMem) (count : BitVec 32) : ByteMem × BitVec 32 :=
  let total := count + BitVec.ofNat 32 (httpHeader.length + 4 * 2)
  let m := strncpy heap 0 (stringMem httpHeader) httpHeader.length
  let (m, next) := toStr count m httpHeader.length
  let m := strncpy m next (stringMem httpSeparator) 4
  let next := next + 4
  let m := strncpy m next body count.toNat
  let m := strncpy m (next + count.toNat) (stringMem httpSeparator) 4
  (m, total)

def httpRead : TcpReadFn Services := fun app heap _ _ =>
  let file := app.file app.reads
  let app := { app with reads := app.reads + 1 }
  if file.count.slt 0 then (app, [])
  else
    let (response, total) := httpResponse heap file.body file.count
    (app, [.tcpSend response (total.setWidth 16), .tcpClose])

def httpAccept : Services → Services × TcpReadFn Services := fun app => (app, httpRead)

def initHttp (k : Kernel Services) : Kernel Services := (tcpListen 80 httpAccept k).2

/-! ## Boot -/

/-- The kernel when `main` has started the services. -/
def bootServices (junk : Nat → ByteMem) (file : Nat → FileRead) : Kernel Services :=
  initEcho (initHttp (.boot junk ⟨file, 0⟩))

end BadOs
