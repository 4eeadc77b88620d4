import BadOs.Net.Datagrams

/-!
# The map of devices

Of the functions that use the map only `ip_packet` calls `map_init`. Before the first
packet any other use calls the null pointer `hash`; from then on the map holds, for
every address, the device that was entered last.
-/

namespace BadOs

variable {σ : Type}

/-! ## Computations that do not use a map before it is set up -/

/-- How the first line of `map_add` and `map_lookup` can fail. -/
def Trap.IsMapFault : Trap → Prop
  | .nullPointer => True
  | .divideError => True
  | _ => False

/-- The computation neither calls a null `hash` nor divides by `n_buckets = 0`. -/
def SparesMaps {α : Type} (x : Except Trap α) : Prop :=
  x.Within (fun _ => True) fun e => ¬e.IsMapFault

namespace SparesMaps

variable {α β : Type} {x : Except Trap α} {f : α → Except Trap β}

theorem ok (a : α) : SparesMaps (.ok a : Except Trap α) := Except.Within.ok trivial

theorem error {e : Trap} (h : ¬e.IsMapFault) : SparesMaps (.error e : Except Trap α) :=
  .inr ⟨e, rfl, h⟩

theorem of_total {Q : α → Prop} (h : x.Total Q) : SparesMaps x :=
  Except.Within.of_total (h.mono fun _ _ => trivial)

theorem ite {c : Prop} [Decidable c] {y : Except Trap α} (h : SparesMaps x) (h' : SparesMaps y) :
    SparesMaps (if c then x else y) := by
  split
  · exact h
  · exact h'

theorem bind (h : SparesMaps x) (rest : ∀ a, SparesMaps (f a)) : SparesMaps (x >>= f) :=
  Except.Within.bind h fun a _ => rest a

/-- The rest may rely on what the first result satisfies. -/
theorem bind_post {Q : α → Prop} (h : SparesMaps x) (post : x.Post Q)
    (rest : ∀ a, Q a → SparesMaps (f a)) : SparesMaps (x >>= f) :=
  Except.Within.bind (h.and_post post) fun a ha => rest a ha.2

end SparesMaps

/-! ## Output -/

section

variable (n : Net)

theorem sbuffPush_spares (s : SBuff) (size : BitVec 16) : SparesMaps (sbuffPush s size) := by
  unfold sbuffPush
  split
  · exact .error id
  · exact .ok _

theorem sbuffPop_spares (s : SBuff) (size : BitVec 16) : SparesMaps (sbuffPop s size) := by
  unfold sbuffPop
  split
  · exact .error id
  · exact .ok _

theorem SBuff.store_spares (s : SBuff) (off size : Nat) (f : ByteMem → ByteMem) :
    SparesMaps (s.store off size f) := by
  unfold SBuff.store
  split
  · exact .ok _
  · exact .error id

theorem kmemFree_spares (p : Nat) : SparesMaps (n.kmemFree p) := by
  unfold Net.kmemFree
  split
  · exact .ok _
  · exact .error id

theorem releaseRef_spares (s : SBuff) : SparesMaps (releaseRef s n) := by
  unfold releaseRef
  split
  · exact kmemFree_spares n s.addr
  · exact .ok n

theorem ipSbuffAlloc_spares (size : BitVec 16) : SparesMaps (ipSbuffAlloc size n) := by
  refine .bind (.bind (sbuffPush_spares _ _) fun p => .ok _) ?_
  intro r
  exact .bind (sbuffPush_spares _ _) fun p => .ok _

theorem ethernetSend_spares (s : SBuff) (proto : BitVec 16) (dest : Mac) (device : NetDevice) :
    SparesMaps (ethernetSend s proto dest device n) := by
  refine .bind (sbuffPop_spares _ _) fun s => ?_
  exact .bind (s.store_spares _ _ _) fun s => releaseRef_spares _ _

theorem arpLookup_spares (dev : NetDevice) (ip : BitVec 32) :
    SparesMaps (arpLookup dev ip n) := by
  unfold arpLookup
  split
  · exact .ok _
  · refine .bind (.bind (.bind (sbuffPush_spares _ _) fun p => .ok _) fun r => ?_) fun n => .ok _
    refine .bind (SBuff.store_spares _ _ _ _) fun buf => ?_
    exact .bind (ethernetSend_spares _ _ _ _ _) fun n => releaseRef_spares n buf

theorem ipSend_spares (s : SBuff) (proto : BitVec 8) (dest : BitVec 32) (device : NetDevice) :
    SparesMaps (ipSend s proto dest device n) := by
  refine .bind (sbuffPop_spares _ _) fun s => .bind (s.store_spares _ _ _) fun s => ?_
  refine .bind (arpLookup_spares n device dest) ?_
  rintro ⟨mac, n₁⟩
  cases mac with
  | some mac => exact .bind (ethernetSend_spares _ _ _ _ _) fun n => .ok _
  | none => exact .ok _

theorem icmpSegment_spares (sender : BitVec 32) (dev : NetDevice) (data : ByteMem)
    (len : BitVec 16) : SparesMaps (icmpSegment sender dev data len n) := by
  dsimp only [icmpSegment]
  split
  · exact .ok n
  · split
    · refine .bind (ipSbuffAlloc_spares n len) fun r => ?_
      refine .bind (SBuff.store_spares _ _ _ _) fun buf => ?_
      exact .bind (ipSend_spares _ _ _ _ _) fun r => releaseRef_spares _ _
    · exact .ok n

theorem sendSegment_spares (sb : SBuff) (hdr : TcpHdr) (data : ByteMem) (sz : BitVec 16)
    (dest : BitVec 32) (dev : NetDevice) : SparesMaps (sendSegment sb hdr data sz dest dev n) := by
  refine .bind (sb.store_spares _ _ _) fun sb => .bind (sb.store_spares _ _ _) fun sb => ?_
  refine .bind ?_ fun sb => .bind (ipSend_spares _ _ _ _ _) fun r => .ok _
  dsimp only [tcpChecksum]
  exact SBuff.store_spares _ _ _ _

end

/-! ## TCP -/

section

variable (s : Stream σ) (k : Kernel σ)

theorem resetStream_spares (dev : NetDevice) (hdr : TcpHdr) (srcIp : BitVec 32) :
    SparesMaps (resetStream dev hdr srcIp k) := by
  refine .bind (ipSbuffAlloc_spares _ _) fun r => ?_
  exact .bind (sendSegment_spares _ _ _ _ _ _ _) fun n => .ok _

theorem syn_spares (dev : NetDevice) (hdr : TcpHdr) (srcIp : BitVec 32) :
    SparesMaps (syn dev hdr srcIp k) := by
  unfold syn
  split
  · exact resetStream_spares k dev hdr srcIp
  · refine .bind (ipSbuffAlloc_spares _ _) fun r => ?_
    exact .bind (sendSegment_spares _ _ _ _ _ _ _) fun n => .ok _

theorem tcpClose_spares : SparesMaps (tcpClose s k) := by
  refine .bind (ipSbuffAlloc_spares _ _) fun r => ?_
  exact .bind (sendSegment_spares _ _ _ _ _ _ _) fun n => .ok _

theorem tcpSend_spares (data : ByteMem) (sz : BitVec 16) : SparesMaps (tcpSend s data sz k) := by
  refine .bind (ipSbuffAlloc_spares _ _) fun r => ?_
  exact .bind (sendSegment_spares _ _ _ _ _ _ _) fun n => .ok _

theorem appCalls_spares (calls : List AppCall) : SparesMaps (appCalls s calls k) := by
  induction calls generalizing s k with
  | nil => exact .ok _
  | cons c calls ih =>
      cases c with
      | tcpSend data sz => exact .bind (tcpSend_spares s k data sz) fun r => ih _ _
      | tcpClose => exact .bind (tcpClose_spares s k) fun r => ih _ _

theorem deref_spares (p : Option (Stream σ)) : SparesMaps (deref p) := by
  cases p with
  | some s => exact .ok s
  | none => exact .error id

theorem removeStream_spares : SparesMaps (removeStream s k) :=
  .bind (kmemFree_spares _ _) fun _ => .ok _

theorem acked_spares (hdr : TcpHdr) : SparesMaps (acked s hdr k) := by
  exact .ite (.bind (removeStream_spares _ _) fun k => .ok _) (.ok _)

theorem bufferData_spares (hdr : TcpHdr) (data : ByteMem) (p : Option (Stream σ))
    (len : BitVec 32) : SparesMaps (bufferData hdr data p len) := by
  refine .ite (.ok p) (.bind (deref_spares p) fun s => ?_)
  exact .ite (.ok _) (.ite (.error id) (.ok _))

theorem pushit_spares (p : Option (Stream σ)) : SparesMaps (pushit p k) :=
  .bind (deref_spares p) fun _ => .bind (appCalls_spares _ _ _) fun _ => .ok _

theorem fin_spares (dev : NetDevice) (p : Option (Stream σ)) : SparesMaps (fin dev p k) := by
  refine .bind (deref_spares p) fun s => ?_
  split
  · refine .bind (ipSbuffAlloc_spares _ _) fun r => ?_
    refine .bind (sendSegment_spares _ _ _ _ _ _ _) fun n => ?_
    exact .bind (removeStream_spares _ _) fun k => .ok _
  · split
    · refine .bind (ipSbuffAlloc_spares _ _) fun r => ?_
      exact .bind (sendSegment_spares _ _ _ _ _ _ _) fun n => .ok _
    · exact .ok _

theorem tcpSegment_spares (dev : NetDevice) (data : ByteMem) (sz srcIp : BitVec 32) :
    SparesMaps (tcpSegment dev data sz srcIp k) := by
  refine .bind (.ite (syn_spares k dev _ srcIp) (.ok k)) fun k => ?_
  split
  · exact resetStream_spares k dev _ srcIp
  · next s _ =>
    refine .bind (.ite (acked_spares s k _) (.ok _)) fun r => ?_
    refine .bind (bufferData_spares _ _ _ _) fun p => ?_
    refine .bind (.ite (pushit_spares _ p) (.ok _)) fun r => ?_
    exact .bind (.ite (fin_spares _ dev _) (.ok _)) fun r => .ok _

end

/-! ## What uses the map -/

section

variable {n : Net}

theorem udpSend_spares (ready : n.ipDevices.Ready mapIntHash) (quad : UdpQuad) (data : ByteMem)
    (size : BitVec 32) : SparesMaps (udpSend quad data size n) := by
  have halloc : (udpSbuffAlloc size n).Post fun r => n.SameTables r.2 := by
    refine .bind (ipSbuffAlloc_sameTables n _) ?_
    intro r same
    exact .bind_any fun p => .ok same
  refine .bind_post (.bind (ipSbuffAlloc_spares _ _) fun r => ?_) halloc ?_
  · exact .bind (sbuffPush_spares _ _) fun p => .ok _
  · intro r same
    refine .bind (SBuff.store_spares _ _ _ _) fun sb => ?_
    refine .bind (.of_total (Q := fun _ => True) ?_) fun found => ?_
    · obtain ⟨found, hfound⟩ := ready.mapLookup_eq (ntol quad.srcAddr)
      refine ⟨found, ?_, trivial⟩
      rw [ipResolveLocal, same.ipDevices]
      exact hfound
    · cases found with
      | none => exact .ok _
      | some dev =>
          refine .bind (sbuffPop_spares _ _) fun sb => .bind (sb.store_spares _ _ _) fun sb => ?_
          exact ipSend_spares _ _ _ _ _

theorem udpCalls_spares (ready : n.ipDevices.Ready mapIntHash) (calls : List UdpCall) :
    SparesMaps (udpCalls calls n) := by
  induction calls generalizing n with
  | nil => exact .ok n
  | cons c calls ih =>
      refine .bind_post (udpSend_spares ready c.quad c.data c.size)
        (udpSend_sameTables c.quad c.data c.size n) fun r same => ?_
      exact ih (same.ipDevices ▸ ready)

theorem udpNotify_spares {k : Kernel σ} (ready : k.net.ipDevices.Ready mapIntHash)
    (dev : NetDevice) (data : ByteMem) (srcIp : BitVec 32) (ports : List (UdpListeningPort σ)) :
    SparesMaps (udpNotify dev data srcIp ports k) := by
  induction ports generalizing k with
  | nil => exact .ok k
  | cons p ports ih =>
      simp only [udpNotify]
      refine .ite (.bind_post (udpCalls_spares ready _) (udpCalls_sameTables _ _) ?_) (ih ready)
      intro n same
      exact ih (k := { k with net := n, app := _ }) (same.ipDevices ▸ ready)

end

/-- The part of `ip_packet` behind `map_add`. -/
def ipDeliver (dev : NetDevice) (data : ByteMem) (k : Kernel σ) : Except Trap (Kernel σ) :=
  let ip := Ipv4Header.load data
  let payload := data.shift ip.hdrLen.toNat
  if ip.proto = 1 then do
    let n ← icmpSegment (ntol ip.src) dev payload (ntos ip.totalLen - ip.hdrLen) k.net
    return { k with net := n }
  else if ip.proto = 6 then
    tcpSegment dev payload ((ntos ip.totalLen).setWidth 32 - ip.hdrLen.setWidth 32)
      (ntol ip.src) k
  else if ip.proto = 17 then udpDatagram dev payload (ntol ip.src) k
  else return k

theorem ipPacket_eq (dev : NetDevice) (data : ByteMem) (k : Kernel σ) :
    ipPacket dev data k =
      registerDevice dev k.net >>= fun n => ipDeliver dev data { k with net := n } := rfl

theorem ipDeliver_spares {k : Kernel σ} (ready : k.net.ipDevices.Ready mapIntHash)
    (dev : NetDevice) (data : ByteMem) : SparesMaps (ipDeliver dev data k) := by
  refine .ite (.bind (icmpSegment_spares _ _ _ _ _) fun n => .ok _) (.ite ?_ (.ite ?_ (.ok k)))
  · exact tcpSegment_spares k dev _ _ _
  · exact udpNotify_spares ready dev _ _ _

theorem ipDeliver_sameTables (dev : NetDevice) (data : ByteMem) (k : Kernel σ) :
    (ipDeliver dev data k).Post fun k' => k.net.SameTables k'.net := by
  dsimp only [ipDeliver]
  split
  · exact .bind (icmpSegment_sameTables _ _ _ _ _) fun n same => .ok same
  · split
    · intro k' h
      exact tcpSegment_sameTables (g := ⟨dev, _, _, _⟩) h
    · split
      · refine (udpNotify_post dev _ _ _ k).mono ?_
        rintro _ ⟨n, app, same, rfl⟩
        exact same
      · exact .ok (.refl _)

/-! ## Runs -/

/-- The functions that use the map of devices. -/
inductive DeviceCall where
  | ipAddDevice (dev : NetDevice)
  | ipResolveLocal (addr : BitVec 32)
  | udpSend (quad : UdpQuad) (data : ByteMem) (size : BitVec 32)
  | ipPacket (dev : NetDevice) (data : ByteMem)

def deviceStep (k : Kernel σ) : DeviceCall → Except Trap (Kernel σ)
  | .ipAddDevice dev => do
      let n ← ipAddDevice dev k.net
      return { k with net := n }
  | .ipResolveLocal addr => do
      let _ ← ipResolveLocal addr k.net
      return k
  | .udpSend quad data size => do
      let (_, n) ← udpSend quad data size k.net
      return { k with net := n }
  | .ipPacket dev data => ipPacket dev data k

namespace DeviceCall

/-- The device that a call registers. -/
def device? : DeviceCall → Option NetDevice
  | .ipAddDevice dev => some dev
  | .ipPacket dev _ => some dev
  | _ => none

def IsPacket : DeviceCall → Prop
  | .ipPacket _ _ => True
  | _ => False

/-- The payload of a `udp_send` fits into a buffer with its headers. -/
def Fits : DeviceCall → Prop
  | .udpSend _ _ size => size.toNat ≤ 65493
  | _ => True

end DeviceCall

/-- The device that was registered last under an address. -/
def lastRegistered (calls : List DeviceCall) (ip : BitVec 32) : Option NetDevice :=
  (calls.filterMap DeviceCall.device?).reverse.find? fun dev => dev.ip == ip

section

variable {calls : List DeviceCall} {call : DeviceCall} {dev : NetDevice}

theorem lastRegistered_of_device (h : call.device? = some dev) (ip : BitVec 32) :
    lastRegistered (calls ++ [call]) ip =
      if dev.ip = ip then some dev else lastRegistered calls ip := by
  have hlist : (calls ++ [call]).filterMap DeviceCall.device? =
      calls.filterMap DeviceCall.device? ++ [dev] := by simp [h]
  rw [lastRegistered, hlist, List.reverse_append, List.reverse_singleton, List.singleton_append]
  by_cases hip : dev.ip = ip
  · simp [hip]
  · simp [hip, lastRegistered]

theorem lastRegistered_of_none (h : call.device? = none) (ip : BitVec 32) :
    lastRegistered (calls ++ [call]) ip = lastRegistered calls ip := by
  have hlist : (calls ++ [call]).filterMap DeviceCall.device? =
      calls.filterMap DeviceCall.device? := by simp [h]
  rw [lastRegistered, hlist, lastRegistered]

/-- The map is set up and holds for every address the device that was registered last. -/
structure RegisteredDevices (calls : List DeviceCall) (n : Net) : Prop where
  ready : n.ipDevices.Ready mapIntHash
  lookup : ∀ ip, mapLookup n.ipDevices ip = .ok (lastRegistered calls ip)

namespace RegisteredDevices

variable {n n' : Net}

theorem same (h : RegisteredDevices calls n) (same : n.SameTables n') :
    RegisteredDevices calls n' := by
  constructor
  · rw [same.ipDevices]
    exact h.ready
  · rw [same.ipDevices]
    exact h.lookup

theorem skip (h : RegisteredDevices calls n) (hcall : call.device? = none) :
    RegisteredDevices (calls ++ [call]) n := by
  refine ⟨h.ready, fun ip => ?_⟩
  rw [h.lookup, lastRegistered_of_none hcall]

theorem add (h : RegisteredDevices calls n) (call : DeviceCall) (hcall : call.device? = some dev) :
    (ipAddDevice dev n).Total (RegisteredDevices (calls ++ [call])) := by
  obtain ⟨map, hmap, ready⟩ := h.ready.mapAdd_eq dev.ip dev
  refine ⟨_, Except.bind_eq_ok.mpr ⟨map, hmap, rfl⟩, ready, fun ip => ?_⟩
  change mapLookup map ip = _
  rw [h.ready.mapLookup_mapAdd hmap, h.lookup, lastRegistered_of_device hcall]
  split <;> rfl

end RegisteredDevices

/-- Before the first packet nothing has been called, and nothing is set up. -/
inductive DevicesAfter (calls : List DeviceCall) (n : Net) : Prop where
  | unset : calls = [] → n.ipDevices = .zero → DevicesAfter calls n
  | set : (∃ call ∈ calls, call.IsPacket) → RegisteredDevices calls n → DevicesAfter calls n

/-- The map that `ip_packet` adds its device to. -/
theorem DevicesAfter.setUp {n : Net} (h : DevicesAfter calls n) : RegisteredDevices calls { n with
    ipDevices := if n.ipDevices.data.isNone then mapInit mapIntHash else n.ipDevices } := by
  cases h with
  | unset hcalls hzero =>
      subst hcalls
      rw [hzero]
      exact ⟨mapInit_ready mapIntHash, fun ip => rfl⟩
  | set _ registered =>
      have hset : n.ipDevices.data.isNone = false :=
        Option.isNone_eq_false_iff.mpr registered.ready.data_isSome
      rw [hset]
      exact registered

section

variable {k k' : Kernel σ}

/-- A lookup in the map of the boot state calls a null pointer. -/
theorem deviceStep_unset (hzero : k.net.ipDevices = .zero) (hcall : ¬call.IsPacket)
    (fits : call.Fits) : deviceStep k call = .error .nullPointer := by
  have hlookup : ∀ addr, ipResolveLocal addr k.net = .error .nullPointer := by
    intro addr
    rw [ipResolveLocal, hzero]
    rfl
  cases call with
  | ipAddDevice dev =>
      refine Except.bind_error (Except.bind_error ?_)
      rw [hzero]
      rfl
  | ipResolveLocal addr => exact Except.bind_error (hlookup addr)
  | udpSend quad data size =>
      obtain ⟨sb, hsend, _⟩ := udpSend_resolve (n := k.net) quad data fits
      refine Except.bind_error ?_
      rw [hsend]
      exact Except.bind_error (hlookup _)
  | ipPacket dev data => exact absurd trivial hcall

/-- The first call that returns is `ip_packet`. -/
theorem isPacket_of_unset (hzero : k.net.ipDevices = .zero) (hstep : deviceStep k call = .ok k') :
    call.IsPacket := by
  by_contra hcall
  by_cases fits : call.Fits
  · rw [deviceStep_unset hzero hcall fits] at hstep
    cases hstep
  · cases call with
    | udpSend quad data size =>
        obtain ⟨r, hr, _⟩ := Except.bind_eq_ok.mp hstep
        exact udpSend_oversized quad data (Nat.lt_of_not_le fits) r hr
    | _ => exact fits trivial

/-- No call fails at the map once it is set up, or if it sets it up. -/
theorem DevicesAfter.spares (h : DevicesAfter calls k.net)
    (hpacket : ∃ call' ∈ calls ++ [call], call'.IsPacket) : SparesMaps (deviceStep k call) := by
  by_cases hcall : call.IsPacket
  · cases call with
    | ipPacket dev data =>
        change SparesMaps (ipPacket dev data k)
        rw [ipPacket_eq]
        have hadd := h.setUp.add (.ipPacket dev data) rfl
        refine .bind_post (.of_total hadd) hadd.post fun n registered => ?_
        exact ipDeliver_spares (k := { k with net := n }) registered.ready dev data
    | _ => exact hcall.elim
  · have registered : RegisteredDevices calls k.net := by
      cases h with
      | unset hcalls _ =>
          subst hcalls
          obtain ⟨call', hmem, hpacket⟩ := hpacket
          rw [List.mem_singleton.mp hmem] at hpacket
          exact absurd hpacket hcall
      | set _ registered => exact registered
    cases call with
    | ipAddDevice dev =>
        exact .bind (.of_total (registered.add (.ipAddDevice dev) rfl)) fun n => .ok _
    | ipResolveLocal addr =>
        obtain ⟨found, hfound⟩ := registered.ready.mapLookup_eq (ntol addr)
        have hlookup : (ipResolveLocal addr k.net).Total fun _ => True := ⟨found, hfound, trivial⟩
        exact .bind (.of_total hlookup) fun r => .ok k
    | udpSend quad data size =>
        exact .bind (udpSend_spares registered.ready quad data size) fun r => .ok _
    | ipPacket dev data => exact absurd trivial hcall

theorem DevicesAfter.step (h : DevicesAfter calls k.net) (hstep : deviceStep k call = .ok k') :
    DevicesAfter (calls ++ [call]) k'.net := by
  by_cases hcall : call.IsPacket
  · refine .set ⟨call, List.mem_append_right _ List.mem_cons_self, hcall⟩ ?_
    cases call with
    | ipPacket dev data =>
        change ipPacket dev data k = .ok k' at hstep
        rw [ipPacket_eq] at hstep
        obtain ⟨n, hn, hstep⟩ := Except.bind_eq_ok.mp hstep
        have registered := (h.setUp.add (.ipPacket dev data) rfl).post n hn
        exact registered.same (ipDeliver_sameTables dev data { k with net := n } k' hstep)
    | _ => exact hcall.elim
  · cases h with
    | unset _ hzero => exact absurd (isPacket_of_unset hzero hstep) hcall
    | set hpacket registered =>
        obtain ⟨call', hmem, hpacket⟩ := hpacket
        refine .set ⟨call', List.mem_append_left _ hmem, hpacket⟩ ?_
        cases call with
        | ipAddDevice dev =>
            obtain ⟨n, hn, hstep⟩ := Except.bind_eq_ok.mp hstep
            cases hstep
            exact (registered.add (.ipAddDevice dev) rfl).post n hn
        | ipResolveLocal addr =>
            obtain ⟨_, _, hstep⟩ := Except.bind_eq_ok.mp hstep
            cases hstep
            exact registered.skip rfl
        | udpSend quad data size =>
            obtain ⟨r, hr, hstep⟩ := Except.bind_eq_ok.mp hstep
            cases hstep
            exact (registered.same (udpSend_sameTables quad data size k.net r hr)).skip rfl
        | ipPacket dev data => exact absurd trivial hcall

theorem DevicesAfter.run {k₀ : Kernel σ} (boot : k₀.net.ipDevices = .zero)
    (run : Transition.exec deviceStep k₀ calls = .ok k) : DevicesAfter calls k.net := by
  induction calls using List.reverseRecOn generalizing k with
  | nil =>
      cases run
      exact .unset rfl boot
  | append_singleton calls call ih =>
      obtain ⟨k₁, hrun, hstep⟩ := Transition.exec_concat_eq_ok.mp run
      exact (ih hrun).step hstep

end

end

/-- The first call registers a device. -/
theorem device_map_unset : ¬∀ (junk : Nat → ByteMem) (calls : List DeviceCall) (k : Kernel Unit),
    Transition.exec deviceStep (.boot junk ()) calls = .ok k →
      (∀ call, SparesMaps (deviceStep k call)) ∧
        ∀ addr, ipResolveLocal addr k.net = .ok (lastRegistered calls (ntol addr)) := by
  intro claim
  obtain ⟨hspares, _⟩ := claim (fun _ _ => 0) [] _ rfl
  obtain ⟨a, ha, _⟩ | ⟨e, he, hfault⟩ := hspares (.ipAddDevice ⟨0xC0A80302, 0⟩)
  · cases ha
  · cases he
    exact hfault trivial

/-- After every run, a call does not fail at the map exactly if it is `ip_packet` or that has been
called before; an oversized `udp_send` never gets as far as the map. From the first packet on, and
not before, a lookup returns the device that was registered last under the address. -/
theorem device_map_iff (k₀ k : Kernel σ) (calls : List DeviceCall)
    (boot : k₀.net.ipDevices = .zero) (run : Transition.exec deviceStep k₀ calls = .ok k) :
    (∀ call : DeviceCall,
      ((∃ call' ∈ calls ++ [call], call'.IsPacket) → SparesMaps (deviceStep k call)) ∧
        (call.Fits → SparesMaps (deviceStep k call) →
          ∃ call' ∈ calls ++ [call], call'.IsPacket)) ∧
    ∀ addr, ipResolveLocal addr k.net = .ok (lastRegistered calls (ntol addr)) ↔
      ∃ call ∈ calls, call.IsPacket := by
  have after := DevicesAfter.run boot run
  refine ⟨fun call => ⟨after.spares, fun fits hspares => ?_⟩, fun addr => ?_⟩
  · cases after with
    | unset hcalls hzero =>
        subst hcalls
        refine ⟨call, List.mem_singleton_self call, ?_⟩
        by_contra hcall
        rw [deviceStep_unset hzero hcall fits] at hspares
        exact hspares.error_of_eq rfl trivial
    | set hpacket _ =>
        obtain ⟨call', hmem, hpacket⟩ := hpacket
        exact ⟨call', List.mem_append_left _ hmem, hpacket⟩
  · cases after with
    | unset hcalls hzero =>
        subst hcalls
        rw [ipResolveLocal, hzero]
        constructor
        · rintro ⟨⟩
        · rintro ⟨_, ⟨⟩, _⟩
    | set hpacket registered => exact ⟨fun _ => hpacket, fun _ => registered.lookup (ntol addr)⟩

/-- A packet of no known protocol arrives, and then another device is added. -/
theorem device_map_packet : ∃ k : Kernel Unit,
    Transition.exec deviceStep (.boot (fun _ _ => 0) ())
      [.ipPacket ⟨0xC0A80302, 0⟩ fun _ => 0, .ipAddDevice ⟨0xC0A80303, 1⟩] = .ok k ∧
    ipResolveLocal 0x0203A8C0 k.net = .ok (some ⟨0xC0A80302, 0⟩) ∧
    ipResolveLocal 0x0303A8C0 k.net = .ok (some ⟨0xC0A80303, 1⟩) ∧
    SparesMaps (deviceStep k (.udpSend ⟨0x0203A8C0, 0, 7, 7⟩ (fun _ => 0) 4)) := by
  refine ⟨_, rfl, ?_⟩
  obtain ⟨hspares, hlookup⟩ := device_map_iff (.boot (fun _ _ => 0) ()) _
    [.ipPacket ⟨0xC0A80302, 0⟩ fun _ => 0, .ipAddDevice ⟨0xC0A80303, 1⟩] rfl rfl
  refine ⟨(hlookup 0x0203A8C0).mpr ?_, (hlookup 0x0303A8C0).mpr ?_, (hspares _).1 ?_⟩ <;>
    exact ⟨_, List.mem_cons_self, trivial⟩

end BadOs
