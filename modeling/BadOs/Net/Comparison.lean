import BadOs.Net.Headers

/-!
# What is sent from two memories

A buffer starts with whatever the heap holds. Here two kernels with the same tables
build the same packet on different heaps, and the bytes that the code stores are
followed into the frames that the device gets. Two places are never made equal: the
checksum of an ICMP reply, and in a TCP segment the checksum and the two bytes after it.
-/

namespace BadOs

/-! ## Frames -/

/-- The positions of a packet of this protocol, counted from the start of the frame, whose
bytes the heap can have a part in. -/
def Loose (proto : BitVec 8) (x : Nat) : Prop :=
  proto = 1 ∧ 36 ≤ x ∧ x < 38 ∨ proto = 6 ∧ 50 ≤ x ∧ x < 54

/-- The bytes of a buffer from its head on. -/
def SBuff.frame (s : SBuff) : ByteMem := s.data.shift s.head

/-- The positions of a frame that have to be the same: all but the loose ones of an IP
packet. -/
def SBuff.fixed (s : SBuff) : Set Nat :=
  {x | x < s.currSize.toNat ∧ ¬(s.frame 12 = 0x08 ∧ s.frame 13 = 0x00 ∧ Loose (s.frame 23) x)}

/-- The same frame, but for its loose positions, for the same device. -/
structure SameFrame (f f' : NetDevice × SBuff) : Prop where
  device : f'.1 = f.1
  length : f'.2.currSize = f.2.currSize
  bytes : ByteMem.SameOn f.2.fixed f.2.frame f'.2.frame

/-- The tables are the same, and so are the frames that were sent. -/
structure Net.Alike (n n' : Net) : Prop where
  table : n'.table = n.table
  ipDevices : n'.ipDevices = n.ipDevices
  sent : List.Forall₂ SameFrame n.sent n'.sent

/-! ## Buffers -/

/-- Buffers of the same shape with the same contents in `S`. -/
structure SBuff.SameOn (S : Set Nat) (s s' : SBuff) : Prop where
  totalSize : s'.totalSize = s.totalSize
  head : s'.head = s.head
  data : ByteMem.SameOn S s.data s'.data

/-- Buffers as an allocation leaves them: of at most `size` bytes, the contents starting at
`head`. -/
structure Allotted (size head : Nat) (r r' : SBuff × Net) : Prop where
  buf : r.1.SameOn ∅ r'.1
  totalSize : r.1.totalSize.toNat ≤ size
  head : r.1.head = head
  net : r.2.Alike r'.2

section

variable {n n' : Net} {s s' : SBuff} {S T : Set Nat}

theorem SBuff.SameOn.currSize (h : s.SameOn S s') : s'.currSize = s.currSize := by
  have hs := s.head_eq
  have hs' := s'.head_eq
  rw [h.head, h.totalSize] at hs'
  exact BitVec.eq_of_toNat_eq (by omega)

/-- What an operation makes of the buffer `s`: the head is at `head`, and the bytes are
those of `m`, in the other kernel the same ones in `S`. -/
structure Changed (S : Set Nat) (s : SBuff) (head : Nat) (m : ByteMem) (t t' : SBuff) : Prop where
  same : t.SameOn S t'
  totalSize : t.totalSize = s.totalSize
  head : t.head = head
  data : t.data = m

theorem sbuffPush_agree (h : s.SameOn S s') (size : BitVec 16) :
    (sbuffPush s size).Agree (Changed S s (s.head + size.toNat) s.data) (sbuffPush s' size) := by
  unfold sbuffPush
  split
  · exact .error_left
  · split
    · exact .error_right
    · exact .ok ⟨⟨h.totalSize, congrArg (· + size.toNat) h.head, h.data⟩, rfl, rfl, rfl⟩

theorem sbuffPop_agree (h : s.SameOn S s') (size : BitVec 16) :
    (sbuffPop s size).Agree (Changed S s (s.head - size.toNat) s.data) (sbuffPop s' size) := by
  unfold sbuffPop
  split
  · exact .error_left
  · split
    · exact .error_right
    · exact .ok ⟨⟨h.totalSize, congrArg (· - size.toNat) h.head, h.data⟩, rfl, rfl, rfl⟩

theorem SBuff.SameOn.store (h : s.SameOn S s') {f f' : ByteMem → ByteMem}
    (hf : ByteMem.SameOn T (f s.data) (f' s'.data)) (off len off' len' : Nat) :
    (s.store off len f).Agree (Changed T s s.head (f s.data)) (s'.store off' len' f') := by
  unfold SBuff.store
  split
  · split
    · exact .ok ⟨⟨h.totalSize, h.head, hf⟩, rfl, rfl, rfl⟩
    · exact .error_right
  · exact .error_left

theorem rawSbuffAlloc_alike (h : n.Alike n') (size : BitVec 16) :
    Allotted size.toNat 0 (rawSbuffAlloc size n) (rawSbuffAlloc size n') :=
  ⟨⟨rfl, rfl, .empty _ _⟩, Nat.le_refl _, rfl, h.table, h.ipDevices, h.sent⟩

theorem toNat_add_le (x y : BitVec 16) : (x + y).toNat ≤ x.toNat + y.toNat := by
  rw [BitVec.toNat_add]
  exact Nat.mod_le _ _

theorem ethernetSbuffAlloc_agree (h : n.Alike n') (size : BitVec 16) :
    (ethernetSbuffAlloc size n).Agree (Allotted (size.toNat + 14) 14)
      (ethernetSbuffAlloc size n') := by
  have raw := rawSbuffAlloc_alike h (size + 14)
  refine .bind (sbuffPush_agree raw.buf 14) fun t t' moved => .ok ⟨moved.same, ?_, moved.head, ?_⟩
  · change t.totalSize.toNat ≤ _
    rw [moved.totalSize]
    exact raw.totalSize.trans (toNat_add_le size 14)
  · exact raw.net

theorem ipSbuffAlloc_agree (h : n.Alike n') (size : BitVec 16) :
    (ipSbuffAlloc size n).Agree (Allotted (size.toNat + 34) 34) (ipSbuffAlloc size n') := by
  refine .bind (ethernetSbuffAlloc_agree h (size + 20)) ?_
  rintro ⟨p, n₁⟩ ⟨p', n₁'⟩ ⟨buf, total, hhead, net⟩
  refine .bind (sbuffPush_agree buf 20) fun t t' moved => .ok ⟨moved.same, ?_, ?_, net⟩
  · change t.totalSize.toNat ≤ _
    rw [moved.totalSize]
    have hsize : (size + 20).toNat ≤ size.toNat + 20 := toNat_add_le size 20
    have total : p.totalSize.toNat ≤ _ := total
    change p.totalSize.toNat ≤ _
    omega
  · have hhead : p.head = 14 := hhead
    rw [moved.head, hhead]
    rfl

/-! ## Ethernet and ARP -/

theorem kmemFree_agree (h : n.Alike n') (p p' : Nat) :
    (n.kmemFree p).Agree Net.Alike (n'.kmemFree p') := by
  unfold Net.kmemFree
  split
  · split
    · exact .ok ⟨h.table, h.ipDevices, h.sent⟩
    · exact .error_right
  · exact .error_left

theorem releaseRef_post (s : SBuff) (n : Net) :
    (releaseRef s n).Post fun n₁ =>
      n₁.table = n.table ∧ n₁.ipDevices = n.ipDevices ∧ n₁.sent = n.sent := by
  unfold releaseRef Net.kmemFree
  split
  · split
    · exact .ok ⟨rfl, rfl, rfl⟩
    · exact .error
  · exact .ok ⟨rfl, rfl, rfl⟩

/-- What becomes of the buffers themselves does not matter. -/
theorem releaseRef_agree (h : n.Alike n') (s s' : SBuff) :
    (releaseRef s n).Agree Net.Alike (releaseRef s' n') := by
  refine (Except.Agree.of_post (releaseRef_post s n) (releaseRef_post s' n')).mono ?_
  rintro n₁ n₁' ⟨⟨htable, hdevices, hsent⟩, htable', hdevices', hsent'⟩
  refine ⟨?_, ?_, ?_⟩
  · rw [htable', htable, h.table]
  · rw [hdevices', hdevices, h.ipDevices]
  · rw [hsent', hsent]
    exact h.sent

theorem deviceSend_agree (h : n.Alike n') {device : NetDevice}
    (hs : SameFrame (device, s) (device, s')) :
    (deviceSend device s n).Agree Net.Alike (deviceSend device s' n') := by
  have hsent : Net.Alike { n with sent := n.sent ++ [(device, s)] }
      { n' with sent := n'.sent ++ [(device, s')] } :=
    ⟨h.table, h.ipDevices, List.rel_append h.sent (.cons hs .nil)⟩
  exact releaseRef_agree hsent _ _

theorem ethernetHeader_sameOn {m m' : ByteMem} (h : ByteMem.SameOn S m m') (head : Nat)
    (proto : BitVec 16) (dest source : Mac) :
    ByteMem.SameOn (S ∪ Set.Ico head (head + 14)) (ethernetHeader head proto dest source m)
      (ethernetHeader head proto dest source m') := by
  exact (((h.start head).append 6 dest).append 6 source).append 2 (ntos proto)

/-- A packet whose contents are the same, but for the loose positions of its protocol. -/
theorem ethernetSend_agree (h : n.Alike n') (hs : s.SameOn S s') (hhead : s.head = 14)
    (proto : BitVec 16) (dest : Mac) (device : NetDevice)
    (cover : ∀ x, 14 ≤ x → x < s.totalSize.toNat →
      x ∈ S ∨ proto = 0x0800 ∧ Loose (s.data 23) x) :
    (ethernetSend s proto dest device n).Agree Net.Alike
      (ethernetSend s' proto dest device n') := by
  refine .bind (sbuffPop_agree hs 14) fun t t' moved => ?_
  have htop : t.head = 0 := by
    rw [moved.head, hhead]
    rfl
  have hdata := ethernetHeader_sameOn moved.same.data 0 proto dest device.mac
  rw [moved.same.head, htop]
  refine .bind (moved.same.store hdata 0 14 0 14) fun u u' stored => deviceSend_agree h
    ⟨rfl, stored.same.currSize, ?_⟩
  have hu : u.head = 0 := stored.head.trans htop
  have hcurr : u.currSize.toNat = s.totalSize.toNat := by
    have heq := u.head_eq
    rw [stored.totalSize, moved.totalSize, hu] at heq
    omega
  have hframe : u.frame = ethernetHeader 0 proto dest device.mac s.data := by
    funext x
    rw [SBuff.frame, ByteMem.shift, hu, Nat.zero_add, stored.data, moved.data]
  rintro x ⟨hx, hfixed⟩
  change u.data (u.head + x) = u'.data (u'.head + x)
  rw [stored.same.head, hu, Nat.zero_add]
  refine stored.same.data ?_
  by_cases hlow : x < 14
  · exact Or.inr ⟨Nat.zero_le x, hlow⟩
  · refine (cover x (Nat.le_of_not_lt hlow) (hcurr ▸ hx)).imp_right ?_
    rintro ⟨hproto, hloose⟩
    refine absurd ⟨?_, ?_, ?_⟩ hfixed
    · rw [hframe, hproto]
      rfl
    · rw [hframe, hproto]
      rfl
    · rw [hframe, ethernetHeader_apply _ _ _ _ (by decide)]
      exact hloose

theorem arpFields_sameOn {m m' : ByteMem} (h : ByteMem.SameOn S m m') (head : Nat)
    (operation : BitVec 16) (senderMac : Mac) (senderIp : BitVec 32) (targetMac : Mac)
    (targetIp : BitVec 32) :
    ByteMem.SameOn (S ∪ Set.Ico head (head + 28))
      (arpFields head operation senderMac senderIp targetMac targetIp m)
      (arpFields head operation senderMac senderIp targetMac targetIp m') := by
  exact (((((((((h.start head).append 2 _).append 2 _).append 1 _).append 1 _).append 2 _).append 6
    _).append 4 _).append 6 _).append 4 _

/-- The packet of an ARP message fills the frame. -/
theorem arpMessage_agree (h : n.Alike n') (hs : s.SameOn S s') (hhead : s.head = 14)
    (htotal : s.totalSize.toNat ≤ 42) (operation : BitVec 16) (senderMac : Mac)
    (senderIp : BitVec 32) (targetMac : Mac) (targetIp : BitVec 32) (dest : Mac)
    (device : NetDevice) :
    ((do
      let buf ← s.store s.head sizeofArpPacket
        (arpFields s.head operation senderMac senderIp targetMac targetIp)
      let n ← ethernetSend buf 0x0806 dest device n
      releaseRef buf n) : Except Trap Net).Agree Net.Alike (do
        let buf ← s'.store s'.head sizeofArpPacket
          (arpFields s'.head operation senderMac senderIp targetMac targetIp)
        let n ← ethernetSend buf 0x0806 dest device n'
        releaseRef buf n) := by
  have hdata := arpFields_sameOn hs.data 14 operation senderMac senderIp targetMac targetIp
  rw [hs.head, hhead]
  refine .bind (hs.store hdata 14 28 14 28) fun t t' stored => ?_
  refine .bind (ethernetSend_agree h stored.same (stored.head.trans hhead) 0x0806 dest device
    fun x hlow hx => Or.inl (Or.inr ⟨hlow, ?_⟩)) fun n₁ n₁' h₁ => releaseRef_agree h₁ t t'
  rw [stored.totalSize] at hx
  omega

theorem arpRequest_agree (h : n.Alike n') (device : NetDevice) (targetIp : BitVec 32) :
    (arpRequest device targetIp n).Agree Net.Alike (arpRequest device targetIp n') := by
  refine .bind (ethernetSbuffAlloc_agree h 28) ?_
  rintro ⟨buf, n₁⟩ ⟨buf', n₁'⟩ ⟨same, total, hhead, h₁⟩
  have same : (addRef buf).SameOn ∅ (addRef buf') := ⟨same.totalSize, same.head, same.data⟩
  exact arpMessage_agree h₁ same hhead total _ _ _ _ _ _ device

theorem reply_agree (h : n.Alike n') (dev : NetDevice) (target : Mac) (ip : BitVec 32)
    (broadcast : Bool) :
    (reply dev target ip broadcast n).Agree Net.Alike (reply dev target ip broadcast n') := by
  have raw := rawSbuffAlloc_alike h 42
  have same : (addRef (rawSbuffAlloc 42 n).1).SameOn ∅ (addRef (rawSbuffAlloc 42 n').1) :=
    ⟨raw.buf.totalSize, raw.buf.head, raw.buf.data⟩
  refine .bind (sbuffPush_agree same 14) fun t t' moved => ?_
  refine arpMessage_agree raw.net moved.same moved.head ?_ _ _ _ _ _ _ dev
  rw [moved.totalSize]
  exact raw.totalSize

theorem arpLookup_agree (h : n.Alike n') (dev : NetDevice) (ip : BitVec 32) :
    (arpLookup dev ip n).Agree (fun r r' => r'.1 = r.1 ∧ r.2.Alike r'.2) (arpLookup dev ip n') := by
  unfold arpLookup
  rw [h.table]
  split
  · exact .ok ⟨rfl, h⟩
  · exact .bind (arpRequest_agree h dev ip) fun n₁ n₁' h₁ => .ok ⟨rfl, h₁⟩

/-! ## IP -/

theorem ipv4Fields_sameOn {m m' : ByteMem} (h : ByteMem.SameOn S m m') (head : Nat)
    (len : BitVec 16) (proto : BitVec 8) (src dest : BitVec 32) :
    ByteMem.SameOn (S ∪ Set.Ico head (head + 20)) (ipv4Fields head len proto src dest m)
      (ipv4Fields head len proto src dest m') := by
  have hfields := ((((((((((h.start head).append 1 0x45).append 1 0).append 2 (ntos len)).append 2
    0).append 2 0).append 1 64).append 1 proto).append 2 0).append 4 (ntol src)).append 4
    (ntol dest)
  refine (checksum_sameOn hfields head 20 (head + 10)
    fun x hlo hhi => Or.inl (Or.inr ⟨hlo, ?_⟩)).mono Set.subset_union_left
  exact hhi

/-- There is room for the IP and the Ethernet header, and IP fills in both. -/
theorem ipSend_agree (h : n.Alike n') (hs : s.SameOn S s') (hhead : s.head = 34) (proto : BitVec 8)
    (dest : BitVec 32) (device : NetDevice)
    (cover : ∀ x, 34 ≤ x → x < s.totalSize.toNat → x ∈ S ∨ Loose proto x) :
    (ipSend s proto dest device n).Agree (fun r r' => r.2.Alike r'.2)
      (ipSend s' proto dest device n') := by
  refine .bind (sbuffPop_agree hs 20) fun t t' moved => ?_
  have htop : t.head = 14 := by
    rw [moved.head, hhead]
    rfl
  have hdata := ipv4Fields_sameOn moved.same.data 14 t.currSize proto device.ip dest
  rw [moved.same.head, moved.same.currSize, htop]
  refine .bind (moved.same.store hdata 14 20 14 20) fun u u' stored => ?_
  refine .bind (arpLookup_agree h device dest) ?_
  rintro ⟨mac, n₁⟩ ⟨mac', n₁'⟩ ⟨hmac : mac' = mac, h₁⟩
  rw [hmac]
  cases mac with
  | none => exact .ok h₁
  | some mac =>
      refine .bind (ethernetSend_agree h₁ stored.same (stored.head.trans htop) 0x0800 mac device
        fun x hlow hx => ?_) fun n₂ n₂' h₂ => .ok h₂
      rw [stored.data, ipv4Fields_proto]
      rw [stored.totalSize, moved.totalSize] at hx
      by_cases hin : x < 34
      · exact Or.inl (Or.inr ⟨hlow, hin⟩)
      · exact (cover x (Nat.le_of_not_lt hin) hx).imp Or.inl fun hloose => ⟨rfl, hloose⟩

end

end BadOs
