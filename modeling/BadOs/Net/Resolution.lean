import BadOs.Data.Medium
import BadOs.Net.Encapsulation

/-!
# Address resolution

The hosts of a network ask each other for their addresses. What one of them sends is read
by the others as it was meant, so that every answer that reaches a table is right.
-/

namespace BadOs

variable {σ : Type}

/-! ## Frames -/

/-- The bytes that a device transmits. -/
def SBuff.bytes (s : SBuff) : List (BitVec 8) := s.data.slice s.head s.currSize.toNat

/-- What a device hands on: the bytes of the frame, and after them whatever was there. -/
def received (frame : List (BitVec 8)) (rest : ByteMem) : ByteMem := fun i => frame.getD i (rest i)

theorem received_slice {m rest : ByteMem} {n x : Nat} (hx : x < n) :
    received (m.slice 0 n) rest x = m x := by
  rw [received, List.getD_eq_getElem?_getD, ByteMem.slice, List.getElem?_map,
    List.getElem?_range hx]
  exact congrArg m (Nat.zero_add x)

/-- The frames that were handed to a device in between. -/
def transmitted (n n' : Net) : List (List (BitVec 8)) :=
  (n'.sent.drop n.sent.length).map fun e => e.2.bytes

theorem transmitted_same {n n' : Net} (h : n'.sent = n.sent) : transmitted n n' = [] := by
  rw [transmitted, h, List.drop_length]
  rfl

theorem transmitted_one {n n' : Net} {e : NetDevice × SBuff} (h : n'.sent = n.sent ++ [e]) :
    transmitted n n' = [e.2.bytes] := by
  rw [transmitted, h, List.drop_left]
  rfl

/-- The fields of an ARP frame of `sender`. -/
structure ArpFrame (m : ByteMem) (dest : Mac) (operation : BitVec 16) (sender : NetDevice)
    (targetIp : BitVec 32) : Prop where
  dest : m.read 0 6 = dest
  type : ntos (m.read 12 2) = 0x0806
  operation : ntos (m.read 20 2) = operation
  senderMac : m.read 22 6 = sender.mac
  senderIp : ntol (m.read 28 4) = sender.ip
  targetIp : ntol (m.read 38 4) = targetIp

/-- Whatever follows the bytes when they are received. -/
def IsArp (frame : List (BitVec 8)) (dest : Mac) (operation : BitVec 16) (sender : NetDevice)
    (targetIp : BitVec 32) : Prop :=
  ∀ rest, ArpFrame (received frame rest) dest operation sender targetIp

section

variable {m m' : ByteMem} {dest : Mac} {operation : BitVec 16} {sender : NetDevice}
  {targetIp : BitVec 32}

theorem ArpFrame.congr (h : ArpFrame m dest operation sender targetIp)
    (agree : ByteMem.AgreeOn 0 42 m' m) : ArpFrame m' dest operation sender targetIp where
  dest := by rw [agree.read (by decide)]; exact h.dest
  type := by rw [agree.read (by decide)]; exact h.type
  operation := by rw [agree.read (by decide)]; exact h.operation
  senderMac := by rw [agree.read (by decide)]; exact h.senderMac
  senderIp := by rw [agree.read (by decide)]; exact h.senderIp
  targetIp := by rw [agree.read (by decide)]; exact h.targetIp

/-- What `reply` and `arp_request` write. -/
theorem arpFrame_of_fields (m : ByteMem) (dest targetMac : Mac) (operation : BitVec 16)
    (sender : NetDevice) (targetIp : BitVec 32) :
    ArpFrame (ethernetHeader 0 0x0806 dest sender.mac
      (arpFields 14 operation sender.mac sender.ip targetMac targetIp m)) dest operation sender
      targetIp := by
  obtain ⟨hop, hmac, hip, htarget⟩ :=
    arpFields_read m 14 operation sender.mac targetMac sender.ip targetIp
  have htype := ethernetHeader_type dest sender.mac
    (arpFields 14 operation sender.mac sender.ip targetMac targetIp m) 0 0x0806
  rw [Nat.zero_add] at htype
  refine ⟨ethernetHeader_dest _ _ _ 0 _, ?_, ?_, ?_, ?_, ?_⟩
  · rw [htype, ntos_ntos]
  · rw [ethernetHeader_read _ _ _ _ (by decide), hop, ntos_ntos]
  · rw [ethernetHeader_read _ _ _ _ (by decide), hmac]
  · rw [ethernetHeader_read _ _ _ _ (by decide), hip, ntol_ntol]
  · rw [ethernetHeader_read _ _ _ _ (by decide), htarget, ntol_ntol]

/-- What a device does with an ARP frame. -/
theorem ethernetPacket_arp (h : ArpFrame m dest operation sender targetIp) (dev : NetDevice)
    (k : Kernel σ) :
    ethernetPacket dev m k =
      if targetIp ≠ dev.ip then .ok k
      else if operation = 1 then do
        let n ← reply dev sender.mac sender.ip false k.net
        return { k with net := n }
      else do
        let n ← arpStore sender.mac sender.ip k.net
        return { k with net := n } := by
  have hip : ¬ntos (m.read 12 2) = 0x0800 := by
    rw [h.type]
    decide
  dsimp only [ethernetPacket]
  rw [if_neg hip, if_pos h.type]
  dsimp only [arpPacket]
  rw [ByteMem.read_shift, ByteMem.read_shift, ByteMem.read_shift, ByteMem.read_shift, h.operation,
    h.senderMac, h.senderIp, h.targetIp]
  split
  · rfl
  · split
    · rfl
    · rfl

end

/-! ## Sending -/

/-- One frame was sent and no table has changed. -/
structure ArpSent (n : Net) (dev : NetDevice) (dest : Mac) (operation : BitVec 16)
    (targetIp : BitVec 32) (n' : Net) : Prop where
  table : n'.table = n.table
  frame : ∃ frame, transmitted n n' = [frame] ∧ IsArp frame dest operation dev targetIp

/-- One frame was handed to the device and no table has changed. -/
structure ArpQueued (n : Net) (dev : NetDevice) (dest : Mac) (operation : BitVec 16)
    (targetIp : BitVec 32) (n' : Net) : Prop where
  table : n'.table = n.table
  frame : ∃ frame, n'.sent = n.sent ++ [(dev, frame)] ∧ frame.head = 0 ∧
    frame.currSize.toNat = 42 ∧ ArpFrame frame.data dest operation dev targetIp

/-- What the device was given is what it transmits. -/
theorem ArpQueued.sent {n n' : Net} {dev : NetDevice} {dest : Mac} {operation : BitVec 16}
    {targetIp : BitVec 32} (h : ArpQueued n dev dest operation targetIp n') :
    ArpSent n dev dest operation targetIp n' := by
  obtain ⟨htable, frame, hsent, hhead, hcurr, harp⟩ := h
  refine ⟨htable, frame.bytes, transmitted_one hsent, fun rest => ?_⟩
  rw [SBuff.bytes, hhead, hcurr]
  apply harp.congr
  intro x _ hx
  exact received_slice (by omega)

section

variable (n n₁ : Net) (buf : SBuff)

/-- The end of `reply` and `arp_request`: a buffer that is referred to once is filled, sent
and released. -/
theorem arpSend_queued (hlive : buf.addr ∈ n₁.live) (htotal : buf.totalSize.toNat = 42)
    (hhead : buf.head = 14) (hrefs : buf.refs = 1) (hsent : n₁.sent = n.sent)
    (htable : n₁.table = n.table) (dev : NetDevice) (dest targetMac : Mac)
    (operation : BitVec 16) (targetIp : BitVec 32) :
    (buf.store buf.head sizeofArpPacket
        (arpFields buf.head operation dev.mac dev.ip targetMac targetIp) >>= fun buf =>
      ethernetSend buf 0x0806 dest dev n₁ >>= fun n => releaseRef buf n).Total
        (ArpQueued n dev dest operation targetIp) := by
  have hroom : buf.head + sizeofArpPacket ≤ buf.totalSize.toNat := by
    rw [hhead, htotal]
    decide
  refine .bind ⟨_, SBuff.store_eq hroom _, rfl⟩ ?_
  rintro _ rfl
  have hnot : buf.refs ≠ 0 := by
    rw [hrefs]
    decide
  refine .bind ((ethernetSend_eq (by exact hlive) (by exact hhead) 0x0806 dest dev).and_post
    (ethernetSend_sameTables _ _ _ _ dev)) ?_
  rintro n₂ ⟨⟨hlive₂, frame, hsent₂, hframe⟩, same⟩
  have hfree : releaseRef { buf with
      data := arpFields buf.head operation dev.mac dev.ip targetMac targetIp buf.data } n₂ =
      .ok { n₂ with live := n₂.live.erase buf.addr } := by
    change (if buf.refs - 1 = 0 then n₂.kmemFree buf.addr else _) = _
    rw [hrefs, if_pos (by decide), Net.kmemFree, if_pos (by rw [hlive₂ hnot]; exact hlive)]
  rw [hfree]
  have hcurr : frame.currSize.toNat = 42 := by
    rw [hframe.currSize, hframe.totalSize]
    exact htotal
  have hdata := hframe.data
  dsimp only at hdata
  rw [hhead] at hdata
  refine .ok ⟨same.table.trans htable, frame, hsent ▸ hsent₂, hframe.head, hcurr, ?_⟩
  rw [hdata]
  exact arpFrame_of_fields buf.data dest targetMac operation dev targetIp

theorem reply_sent (dev : NetDevice) (target : Mac) (ip : BitVec 32) (broadcast : Bool) :
    (reply dev target ip broadcast n).Total
      (ArpSent n dev (if broadcast then broadcastMac else target) 2 ip) := by
  have hroom : (14 : BitVec 16).toNat ≤ (addRef (rawSbuffAlloc 42 n).1).currSize.toNat := by
    change 14 ≤ (42 : BitVec 16).toNat
    decide
  refine .bind (sbuffPush_total hroom) ?_
  rintro buf ⟨haddr, htotal, hhead, hrefs, _⟩
  refine (arpSend_queued n n.kmemAlloc.2 buf ?_ ?_ hhead hrefs rfl rfl dev _ target 2 ip).mono
    fun n' h => h.sent
  · rw [haddr]
    exact n.kmemAlloc_mem
  · rw [htotal]
    rfl

theorem arpRequest_queued (dev : NetDevice) (ip : BitVec 32) :
    (arpRequest dev ip n).Total (ArpQueued n dev broadcastMac 1 ip) := by
  refine .bind (ethernetSbuffAlloc_total n sizeofArpPacket (by decide)) ?_
  rintro ⟨buf, n₁⟩ b
  have hrefs : (addRef buf).refs = 1 := by
    change buf.refs + 1 = 1
    rw [b.refs]
    rfl
  have hnet : n₁ = n.kmemAlloc.2 := b.net
  refine arpSend_queued n n₁ (addRef buf) b.mem_live b.totalSize b.head hrefs ?_ ?_ dev _ 0 1 ip
  · rw [hnet]
    rfl
  · rw [hnet]
    rfl

/-- What is stored is the last entry of the table. -/
theorem arpStore_eq {n n' : Net} {mac : Mac} {ip : BitVec 32} (h : arpStore mac ip n = .ok n') :
    n'.table.entries = n.table.entries ++ [(ip, mac)] ∧ n'.sent = n.sent := by
  unfold arpStore at h
  split at h
  · cases h
    exact ⟨rfl, rfl⟩
  · cases h

/-- A miss sends a request. -/
theorem arpLookup_miss (dev : NetDevice) {ip : BitVec 32} (hmiss : n.macOf ip = none) :
    (arpLookup dev ip n).Total fun r => r.1 = none ∧ ArpQueued n dev broadcastMac 1 ip r.2 := by
  have hfind : n.table.entries.find? (fun e => e.1 == ip) = none := Option.map_eq_none_iff.mp hmiss
  unfold arpLookup
  rw [hfind]
  refine .bind (arpRequest_queued n dev ip) fun n' h => ?_
  exact .ok ⟨rfl, h⟩

end

/-! ## The hosts -/

/-- What a host does on its own. -/
inductive ArpOp where
  | lookup (ip : BitVec 32)
  | gratuitous

def ArpOp.run (dev : NetDevice) (n : Net) : ArpOp → Except Trap Net
  | .lookup ip => do
      let (_, n) ← arpLookup dev ip n
      return n
  | .gratuitous => gratuitousArp dev n

/-- Hosts with these devices. What is received is the bytes that were sent, with anything
behind them. -/
def arpHosts {N : Nat} (dev : Fin N → NetDevice) :
    Medium.Protocol Trap N (Kernel σ) (List (BitVec 8)) ArpOp ByteMem where
  act a op k := do
    let n ← op.run (dev a) k.net
    return ({ k with net := n }, transmitted k.net n)
  receive c frame rest k := do
    let k' ← ethernetPacket (dev c) (received frame rest) k
    return (k', transmitted k.net k'.net)

abbrev Lan (N : Nat) (σ : Type) := Medium.World N (Kernel σ) (List (BitVec 8))

abbrev lanStep {N : Nat} (dev : Fin N → NetDevice) :
    Lan N σ → Medium.Event N ArpOp ByteMem → Except Trap (Lan N σ) := Medium.step (arpHosts dev)

def Kernel.arpEntries (k : Kernel σ) : List (BitVec 32 × Mac) := k.net.table.entries

section

variable {N : Nat} (dev : Fin N → NetDevice)

/-- The table has the entries `old` and after them only right ones, of other hosts. -/
def Learned (old : Fin N → List (BitVec 32 × Mac)) (a : Fin N) (k : Kernel σ) : Prop :=
  ∃ new, k.arpEntries = old a ++ new ∧ ∀ e ∈ new, ∃ b, b ≠ a ∧ e = ((dev b).ip, (dev b).mac)

/-- The frame names host `a` as its sender. -/
def Speaks (a : Fin N) (frame : List (BitVec 8)) : Prop :=
  ∃ dest operation targetIp, IsArp frame dest operation (dev a) targetIp

variable {dev} {old : Fin N → List (BitVec 32 × Mac)} {a c : Fin N} {k : Kernel σ}

theorem Learned.start (dev : Fin N → NetDevice) (host : Fin N → Kernel σ) (a : Fin N) :
    Learned dev (fun a => (host a).arpEntries) a (host a) :=
  ⟨[], (List.append_nil _).symm, fun _ h => absurd h List.not_mem_nil⟩

/-- A host that sends a frame keeps its table. -/
theorem ArpSent.keeps {n : Net} {dest : Mac} {operation : BitVec 16} {targetIp : BitVec 32}
    (h : ArpSent k.net (dev a) dest operation targetIp n) (hk : Learned dev old a k) :
    Learned dev old a { k with net := n } ∧ ∀ frame ∈ transmitted k.net n, Speaks dev a frame := by
  obtain ⟨htable, frame, hframe, harp⟩ := h
  refine ⟨?_, fun f hf => ?_⟩
  · obtain ⟨new, hnew, hright⟩ := hk
    refine ⟨new, ?_, hright⟩
    rw [← hnew, Kernel.arpEntries, htable]
    rfl
  · rw [hframe, List.mem_singleton] at hf
    rw [hf]
    exact ⟨dest, operation, targetIp, harp⟩

theorem Learned.same {n : Net} (htable : n.table = k.net.table) (hsent : n.sent = k.net.sent)
    (hk : Learned dev old a k) :
    Learned dev old a { k with net := n } ∧ ∀ frame ∈ transmitted k.net n, Speaks dev a frame := by
  refine ⟨?_, fun f hf => ?_⟩
  · rw [Learned, Kernel.arpEntries, htable]
    exact hk
  · rw [transmitted_same hsent] at hf
    exact absurd hf List.not_mem_nil

/-- What a host does on its own changes no table. -/
theorem ArpOp.run_total (dev : NetDevice) (n : Net) (op : ArpOp) :
    (op.run dev n).Total fun n' =>
      n' = n ∨ ∃ dest operation targetIp, ArpSent n dev dest operation targetIp n' := by
  cases op with
  | lookup ip =>
      cases hmac : n.macOf ip with
      | some mac =>
          refine .bind ⟨_, arpLookup_eq_some_iff.mpr hmac, rfl⟩ ?_
          rintro _ rfl
          exact .ok (.inl rfl)
      | none =>
          refine .bind (arpLookup_miss n dev hmac) ?_
          rintro ⟨_, n'⟩ ⟨_, h⟩
          exact .ok (.inr ⟨_, _, _, h.sent⟩)
  | gratuitous => exact (reply_sent n dev 0 dev.ip true).mono fun n' h => .inr ⟨_, _, _, h⟩

/-- A frame of another host adds its address to the table or nothing, and what is sent names
its sender. -/
theorem arpHosts_receive {frame : List (BitVec 8)} {rest : ByteMem} (hac : a ≠ c)
    (hspeaks : Speaks dev a frame) (hk : Learned dev old c k) :
    ((arpHosts dev).receive c frame rest k).Post fun r =>
      Learned dev old c r.1 ∧ ∀ frame' ∈ r.2, Speaks dev c frame' := by
  obtain ⟨dest, operation, targetIp, harp⟩ := hspeaks
  change Except.Post (ethernetPacket (dev c) (received frame rest) k >>= _) _
  rw [ethernetPacket_arp (harp rest)]
  split
  · exact .ok (hk.same rfl rfl)
  · split
    · obtain ⟨n, hn, hsent⟩ := reply_sent k.net (dev c) (dev a).mac (dev a).ip false
      rw [hn]
      exact .ok (hsent.keeps hk)
    · cases hstore : arpStore (dev a).mac (dev a).ip k.net with
      | error e => exact .error
      | ok n =>
          obtain ⟨hentries, hsent⟩ := arpStore_eq hstore
          obtain ⟨new, hnew, hright⟩ := hk
          refine .ok ⟨⟨new ++ [((dev a).ip, (dev a).mac)], ?_, fun e he => ?_⟩, ?_⟩
          · rw [← List.append_assoc, ← hnew]
            exact hentries
          · obtain he | he := List.mem_append.mp he
            · exact hright e he
            · exact ⟨a, hac, List.mem_singleton.mp he⟩
          · change ∀ f ∈ transmitted k.net n, _
            rw [transmitted_same hsent]
            exact fun f hf => absurd hf List.not_mem_nil

theorem arpHosts_keeps :
    Medium.Keeps (arpHosts (σ := σ) dev) (Learned dev old) (Speaks dev) where
  act a op k hk := by
    obtain ⟨n, hn, h⟩ := op.run_total (dev a) k.net
    change Except.Post (op.run (dev a) k.net >>= _) _
    rw [hn]
    obtain rfl | ⟨_, _, _, h⟩ := h
    · exact .ok (hk.same rfl rfl)
    · exact .ok (h.keeps hk)
  receive _ _ _ _ _ hac hspeaks hk := arpHosts_receive hac hspeaks hk

end

/-! ## Runs -/

section

variable {N : Nat} (dev : Fin N → NetDevice)

/-- No host has an entry for another one, and no frame is on its way. -/
structure ArpStart (w : Lan N σ) : Prop where
  inFlight : w.inFlight = []
  unknown : ∀ a b mac, a ≠ b → ((dev b).ip, mac) ∉ (w.host a).arpEntries

def SameEntries (w w' : Lan N σ) : Prop := ∀ c, (w'.host c).arpEntries = (w.host c).arpEntries

/-- When host `c` receives the frame, nothing happens. -/
def Ignores (σ : Type) (c : Fin N) (frame : List (BitVec 8)) : Prop :=
  ∀ (w : Lan N σ) i rest, w.inFlight[i]? = some (c, frame) →
    lanStep dev w (.deliver i rest) = .ok (w.drop i)

/-- In every state that is reached from `w₀` with room in its table, host `a` learns from the
frame the address of `b`, which a lookup finds from then on. -/
def Resolves (w₀ : Lan N σ) (a b : Fin N) (frame : List (BitVec 8)) : Prop :=
  ∀ es w, Transition.exec (lanStep dev) w₀ es = .ok w → (w.host a).arpEntries.length < 128 →
    ∀ i rest, w.inFlight[i]? = some (a, frame) →
      ∃ w', lanStep dev w (.deliver i rest) = .ok w' ∧ w'.inFlight = w.inFlight.eraseIdx i ∧
        (∀ c, c ≠ a → w'.host c = w.host c) ∧
        ∀ es' w'', Transition.exec (lanStep dev) w' es' = .ok w'' →
          arpLookup (dev a) (dev b).ip (w''.host a).net =
            .ok (some (dev b).mac, (w''.host a).net)

variable {dev} {w₀ w w' : Lan N σ} {a b c : Fin N} {es : List (Medium.Event N ArpOp ByteMem)}
  {frame : List (BitVec 8)} {dest : Mac} {operation : BitVec 16} {sender : NetDevice}
  {targetIp : BitVec 32}

/-- After every run the tables hold what they held before, and right entries. -/
theorem sound_exec {old : Fin N → List (BitVec 32 × Mac)}
    (h : Medium.Sound (Learned dev old) (Speaks dev) w)
    (run : Transition.exec (lanStep dev) w es = .ok w') :
    Medium.Sound (Learned dev old) (Speaks dev) w' := by
  have run : Transition.Run (lanStep dev) (fun _ _ => True) w es w' :=
    .of_exec run fun _ _ => trivial
  exact h.run arpHosts_keeps run

theorem ArpStart.sound (h : ArpStart dev w₀) :
    Medium.Sound (Learned dev fun a => (w₀.host a).arpEntries) (Speaks dev) w₀ := by
  refine ⟨Learned.start dev w₀.host, fun c m hm => ?_⟩
  rw [h.inFlight] at hm
  exact absurd hm List.not_mem_nil

/-- An entry for the address of a host is right, unless it was there from the start. -/
theorem entry_right (distinct : ∀ a b, (dev a).ip = (dev b).ip → a = b) (start : ArpStart dev w₀)
    (run : Transition.exec (lanStep dev) w₀ es = .ok w) (a b : Fin N) (mac : Mac)
    (hmem : ((dev b).ip, mac) ∈ (w.host a).arpEntries) :
    mac = (dev b).mac ∨ a = b ∧ ((dev b).ip, mac) ∈ (w₀.host a).arpEntries := by
  obtain ⟨new, hnew, hright⟩ := (sound_exec start.sound run).host a
  rw [hnew] at hmem
  obtain hold | hmem := List.mem_append.mp hmem
  · by_cases hab : a = b
    · exact .inr ⟨hab, hold⟩
    · exact absurd hold (start.unknown a b mac hab)
  · obtain ⟨b', _, heq⟩ := hright _ hmem
    obtain ⟨hip, rfl⟩ := Prod.mk.inj heq
    rw [distinct b b' hip]
    exact .inl rfl

/-- An entry is found if there is no other one for the address. -/
theorem Net.macOf_eq {n : Net} {ip : BitVec 32} {mac : Mac} (hmem : (ip, mac) ∈ n.table.entries)
    (hright : ∀ mac', (ip, mac') ∈ n.table.entries → mac' = mac) : n.macOf ip = some mac := by
  cases hfind : n.table.entries.find? fun e => e.1 == ip with
  | none => exact absurd (beq_self_eq_true ip) (List.find?_eq_none.mp hfind _ hmem)
  | some e =>
      have hfound := List.find?_some hfind
      have hip : e.1 = ip := beq_iff_eq.mp hfound
      have hmac := hright e.2 (hip ▸ List.mem_of_find?_eq_some hfind)
      rw [Net.macOf, hfind, ← hmac]
      rfl

/-! ## One resolution -/

theorem ignores_of_target (harp : IsArp frame dest operation sender targetIp)
    (hother : targetIp ≠ (dev c).ip) : Ignores dev σ c frame := by
  intro w i rest hi
  refine Medium.step_deliver_same hi ?_
  change (ethernetPacket (dev c) (received frame rest) (w.host c) >>= fun k' => _) = _
  rw [ethernetPacket_arp (harp rest), if_pos hother]
  change Except.ok (w.host c, transmitted (w.host c).net (w.host c).net) = _
  rw [transmitted_same rfl]

/-- The host that is asked answers with one frame. -/
theorem request_answered (harp : IsArp frame dest 1 (dev a) (dev b).ip) {i : Nat}
    (hi : w.inFlight[i]? = some (b, frame)) (rest : ByteMem) :
    ∃ w' answer, lanStep dev w (.deliver i rest) = .ok w' ∧ SameEntries w w' ∧
      w'.inFlight = w.inFlight.eraseIdx i ++ Medium.copies b [answer] ∧
      IsArp answer (dev a).mac 2 (dev b) (dev a).ip := by
  obtain ⟨n, hn, htable, answer, htrans, hanswer⟩ :=
    reply_sent (w.host b).net (dev b) (dev a).mac (dev a).ip false
  have hreceive : (arpHosts dev).receive b frame rest (w.host b) =
      .ok ({ w.host b with net := n }, [answer]) := by
    change (ethernetPacket (dev b) (received frame rest) (w.host b) >>= fun k' => _) = _
    rw [ethernetPacket_arp (harp rest), if_neg (not_not.mpr rfl), if_pos rfl, hn, ← htrans]
    rfl
  refine ⟨_, answer, Medium.step_deliver hi hreceive, fun c => ?_, rfl, hanswer⟩
  by_cases hc : c = b
  · subst hc
    rw [Medium.World.set_host_self, Kernel.arpEntries, htable]
    rfl
  · rw [Medium.World.set_host_of_ne hc]
    rfl

/-- An answer is stored. -/
theorem answer_stored (harp : IsArp frame dest 2 (dev b) (dev a).ip) {i : Nat}
    (hi : w.inFlight[i]? = some (a, frame)) (rest : ByteMem)
    (room : (w.host a).arpEntries.length < 128) :
    ∃ w', lanStep dev w (.deliver i rest) = .ok w' ∧ w'.inFlight = w.inFlight.eraseIdx i ∧
      (∀ c, c ≠ a → w'.host c = w.host c) ∧
      (w'.host a).arpEntries = (w.host a).arpEntries ++ [((dev b).ip, (dev b).mac)] := by
  obtain ⟨n, hn⟩ : ∃ n, arpStore (dev b).mac (dev b).ip (w.host a).net = .ok n := by
    unfold arpStore
    rw [dif_pos (by exact room)]
    exact ⟨_, rfl⟩
  obtain ⟨hentries, hsent⟩ := arpStore_eq hn
  have hreceive : (arpHosts dev).receive a frame rest (w.host a) =
      .ok ({ w.host a with net := n }, []) := by
    change (ethernetPacket (dev a) (received frame rest) (w.host a) >>= fun k' => _) = _
    rw [ethernetPacket_arp (harp rest), if_neg (not_not.mpr rfl), if_neg (by decide), hn,
      ← transmitted_same hsent]
    rfl
  refine ⟨_, Medium.step_deliver hi hreceive, List.append_nil _, fun c hc => ?_, ?_⟩
  · exact Medium.World.set_host_of_ne hc
  · rw [Medium.World.set_host_self]
    exact hentries

theorem answer_resolves (distinct : ∀ a b, (dev a).ip = (dev b).ip → a = b)
    (start : ArpStart dev w₀) (hab : a ≠ b) (harp : IsArp frame dest 2 (dev b) (dev a).ip) :
    Resolves dev w₀ a b frame := by
  intro es w run room i rest hi
  obtain ⟨w', hstep, hflight, hothers, hentries⟩ := answer_stored harp hi rest room
  refine ⟨w', hstep, hflight, hothers, fun es' w'' run' => ?_⟩
  have hrun : Transition.exec (lanStep dev) w₀ (es ++ .deliver i rest :: es') = .ok w'' := by
    rw [Transition.exec_append run, Transition.exec_cons hstep]
    exact run'
  have hsound := (sound_exec start.sound run).step arpHosts_keeps hstep
  obtain ⟨new, hnew, _⟩ := (sound_exec ⟨Learned.start dev w'.host, hsound.inFlight⟩ run').host a
  have hmem : ((dev b).ip, (dev b).mac) ∈ (w''.host a).arpEntries := by
    rw [hnew]
    dsimp only
    rw [hentries]
    exact List.mem_append_left _ (List.mem_append_right _ (List.mem_singleton.mpr rfl))
  refine arpLookup_eq_some_iff.mpr (Net.macOf_eq hmem fun mac hmac => ?_)
  obtain h | ⟨heq, _⟩ := entry_right distinct start hrun a b mac hmac
  · exact h
  · exact absurd heq hab

/-- Any number of hosts with different addresses resolve them on a shared medium. In every
state that is reached, the entries for these addresses are right, but perhaps one of a host
for itself that was there from the start. When a lookup of `a` for `b` misses, every other
host gets one copy of one request, which only `b` cares about: it answers with one frame to
`a`, which only `a` cares about, and from which `a` learns the address. -/
theorem arp_agreement (dev : Fin N → NetDevice)
    (distinct : ∀ a b, (dev a).ip = (dev b).ip → a = b) (w₀ w : Lan N σ)
    (start : ArpStart dev w₀) (es : List (Medium.Event N ArpOp ByteMem))
    (run : Transition.exec (lanStep dev) w₀ es = .ok w) :
    (∀ a b mac, ((dev b).ip, mac) ∈ (w.host a).arpEntries →
        mac = (dev b).mac ∨ a = b ∧ ((dev b).ip, mac) ∈ (w₀.host a).arpEntries) ∧
      ∀ a b, a ≠ b → (w.host a).net.macOf (dev b).ip = none →
        ∃ w₁ request, lanStep dev w (.act a (.lookup (dev b).ip)) = .ok w₁ ∧ SameEntries w w₁ ∧
          w₁.inFlight = w.inFlight ++ Medium.copies a [request] ∧
          IsArp request broadcastMac 1 (dev a) (dev b).ip ∧
          (∀ c, c ≠ b → Ignores dev σ c request) ∧
          ∀ (w₂ : Lan N σ) i rest, w₂.inFlight[i]? = some (b, request) →
            ∃ w₃ answer, lanStep dev w₂ (.deliver i rest) = .ok w₃ ∧ SameEntries w₂ w₃ ∧
              w₃.inFlight = w₂.inFlight.eraseIdx i ++ Medium.copies b [answer] ∧
              IsArp answer (dev a).mac 2 (dev b) (dev a).ip ∧
              (∀ c, c ≠ a → Ignores dev σ c answer) ∧ Resolves dev w₀ a b answer := by
  refine ⟨entry_right distinct start run, fun a b hab hmiss => ?_⟩
  obtain ⟨⟨_, n⟩, hn, rfl, hqueued⟩ := arpLookup_miss (w.host a).net (dev a) hmiss
  obtain ⟨htable, request, htrans, hrequest⟩ := hqueued.sent
  have hact : (arpHosts dev).act a (.lookup (dev b).ip) (w.host a) =
      .ok ({ w.host a with net := n }, [request]) := by
    change ((arpLookup (dev a) (dev b).ip (w.host a).net >>= fun r => pure r.2) >>= fun n => _) = _
    rw [hn, ← htrans]
    rfl
  refine ⟨_, request, Medium.step_act hact, fun c => ?_, rfl, hrequest, fun c hc => ?_,
    fun w₂ i rest hi => ?_⟩
  · by_cases hc : c = a
    · subst hc
      rw [Medium.World.set_host_self, Kernel.arpEntries]
      exact congrArg ArpTable.entries htable
    · rw [Medium.World.set_host_of_ne hc]
  · exact ignores_of_target hrequest fun h => hc (distinct b c h).symm
  · obtain ⟨w₃, answer, hstep, hsame, hflight, hanswer⟩ := request_answered hrequest hi rest
    exact ⟨w₃, answer, hstep, hsame, hflight, hanswer,
      fun c hc => ignores_of_target hanswer fun h => hc (distinct a c h).symm,
      answer_resolves distinct start hab hanswer⟩

/-- The first of three hosts asks for the address of the second one. -/
theorem arp_agreement_run : ∃ (dev : Fin 3 → NetDevice) (w₀ w : Lan 3 Unit),
    Transition.exec (lanStep dev) w₀
        [.act 0 (.lookup (dev 1).ip), .deliver 0 fun _ => 0, .deliver 1 fun _ => 255] = .ok w ∧
      arpLookup (dev 0) (dev 1).ip (w.host 0).net = .ok (some (dev 1).mac, (w.host 0).net) := by
  let dev : Fin 3 → NetDevice := fun a => ⟨BitVec.ofNat 32 (100 + a), BitVec.ofNat 48 (7 + a)⟩
  let w₀ : Lan 3 Unit := ⟨fun _ => Kernel.boot (fun _ _ => 0) (), []⟩
  have start : ArpStart dev w₀ := ⟨rfl, fun _ _ _ _ => List.not_mem_nil⟩
  have distinct : ∀ a b, (dev a).ip = (dev b).ip → a = b := by decide
  obtain ⟨w₁, request, hstep₁, hsame₁, hflight₁, _, _, hanswer⟩ :=
    (arp_agreement dev distinct w₀ w₀ start [] rfl).2 0 1 (by decide) rfl
  have hfirst : w₁.inFlight = [(1, request), (2, request)] := hflight₁
  obtain ⟨w₂, answer, hstep₂, hsame₂, hflight₂, _, _, hresolves⟩ :=
    hanswer w₁ 0 (fun _ => 0) (by rw [hfirst]; rfl)
  have hsecond : w₂.inFlight = [(2, request), (0, answer), (2, answer)] := by
    rw [hflight₂, hfirst]
    rfl
  have hrun : ∀ es, Transition.exec (lanStep dev) w₀
      (.act 0 (.lookup (dev 1).ip) :: .deliver 0 (fun _ => 0) :: es) =
        Transition.exec (lanStep dev) w₂ es := by
    intro es
    rw [Transition.exec_cons hstep₁, Transition.exec_cons hstep₂]
  have hroom : (w₂.host 0).arpEntries.length < 128 := by
    rw [hsame₂ 0, hsame₁ 0]
    exact Nat.zero_lt_succ _
  obtain ⟨w₃, hstep₃, _, _, hlookup⟩ :=
    hresolves _ w₂ (hrun []) hroom 1 (fun _ => 255) (by rw [hsecond]; rfl)
  refine ⟨dev, w₀, w₃, ?_, hlookup [] w₃ rfl⟩
  rw [hrun, Transition.exec_cons hstep₃]
  rfl

end

end BadOs
