import BadOs.Net.Completion
import BadOs.Net.TwoRuns

/-!
# What a received frame can make the kernel disclose

Two kernels whose tables agree receive frames that agree on their first bytes. If the
lengths that the frame gives for itself stay within these bytes, both send the same
frames, but for their loose positions. Nothing in the code compares the lengths with the
number of bytes that were received.
-/

namespace BadOs

/-! ## The response of the web server -/

section

variable {S : Set Nat} {m m' src src' : ByteMem}

/-- A string without a zero is copied as a whole. -/
theorem strncpy_sameOn {a n : Nat} (h : ByteMem.SameOn (Set.Ico 0 a) m m')
    (hsrc : ByteMem.AgreeOn 0 n src src') (text : ∀ i < n, src i ≠ 0) :
    ByteMem.SameOn (Set.Ico 0 (a + n)) (strncpy m a src n) (strncpy m' a src' n) := by
  have text' : ∀ i < n, src' i ≠ 0 := fun i hi =>
    hsrc i (Nat.zero_le i) (by omega) ▸ text i hi
  dsimp only [strncpy]
  rw [strnlen_eq text, strnlen_eq text', if_neg (Nat.lt_irrefl n), if_neg (Nat.lt_irrefl n)]
  refine (h.copy a 0 n hsrc).mono fun x hx => ?_
  by_cases hlt : x < a
  · exact Or.inl ⟨Nat.zero_le x, hlt⟩
  · exact Or.inr ⟨Nat.le_of_not_lt hlt, hx.2⟩

theorem toStrLoop_sameOn (fuel : Nat) (d : BitVec 32) {p : Nat}
    (h : ByteMem.SameOn (Set.Ico 0 p) m m') :
    (toStrLoop fuel d m' p).2 = (toStrLoop fuel d m p).2 ∧ p ≤ (toStrLoop fuel d m p).2 ∧
      ByteMem.SameOn (Set.Ico 0 (toStrLoop fuel d m p).2) (toStrLoop fuel d m p).1
        (toStrLoop fuel d m' p).1 := by
  induction fuel generalizing d m m' p with
  | zero => exact ⟨rfl, Nat.le_refl p, h⟩
  | succ fuel ih =>
      rw [toStrLoop, toStrLoop]
      split
      · exact ⟨rfl, Nat.le_refl p, h⟩
      · obtain ⟨heq, hle, hsame⟩ := ih (d / 10) (h.extend 1 ((d % 10).setWidth 8 + 48))
        exact ⟨heq, (Nat.le_succ p).trans hle, hsame⟩

theorem strrev_sameOn (fuel : Nat) {str last : Nat} (h : ByteMem.SameOn S m m')
    (hin : Set.Icc str last ⊆ S) :
    ByteMem.SameOn S (strrev fuel m str last) (strrev fuel m' str last) := by
  induction fuel generalizing m m' str last with
  | zero => exact h
  | succ fuel ih =>
      rw [strrev, strrev]
      split
      · next hlt =>
        rw [← h (hin ⟨Nat.le_refl str, hlt.le⟩), ← h (hin ⟨hlt.le, Nat.le_refl last⟩)]
        refine ih (((h.write str 1 (m last)).write last 1 (m str)).mono fun x hx => ?_) ?_
        · exact Or.inl (Or.inl hx)
        · exact fun x hx => hin ⟨(Nat.le_succ str).trans hx.1, hx.2.trans (Nat.sub_le last 1)⟩
      · exact h

/-- The digits of a number, and where they end. -/
theorem toStr_sameOn (d : BitVec 32) {buff : Nat} (hbuff : 0 < buff)
    (h : ByteMem.SameOn (Set.Ico 0 buff) m m') :
    (toStr d m' buff).2 = (toStr d m buff).2 ∧ buff ≤ (toStr d m buff).2 ∧
      ByteMem.SameOn (Set.Ico 0 (toStr d m buff).2) (toStr d m buff).1 (toStr d m' buff).1 := by
  unfold toStr
  split
  · exact ⟨rfl, Nat.le_add_right buff 2, (h.extend 1 48).extend 1 0⟩
  · obtain ⟨heq, hle, hsame⟩ := toStrLoop_sameOn 10 d h
    dsimp only
    rw [heq]
    refine ⟨rfl, hle, strrev_sameOn 5 ((hsame.write _ 1 0).mono fun x hx => Or.inl hx) ?_⟩
    exact fun x hx => ⟨Nat.zero_le x, by have := hx.2; omega⟩

/-- All of the response that is sent was stored: the digits are not counted. -/
theorem httpResponse_agreeOn (heap heap' : ByteMem) {body body' : ByteMem} {count : BitVec 32}
    (hbody : ByteMem.AgreeOn 0 count.toNat body body') (text : ∀ i < count.toNat, body i ≠ 0) :
    (httpResponse heap' body' count).2 = (httpResponse heap body count).2 ∧
      ByteMem.AgreeOn 0 ((httpResponse heap body count).2.setWidth 16).toNat
        (httpResponse heap body count).1 (httpResponse heap' body' count).1 := by
  have hheader : ∀ i < httpHeader.length, stringMem httpHeader i ≠ 0 := by decide +kernel
  have hseparator : ∀ i < 4, stringMem httpSeparator i ≠ 0 := by decide +kernel
  have same₀ : ByteMem.SameOn (Set.Ico 0 0) heap heap' := by
    rw [Set.Ico_self]
    exact .empty heap heap'
  have same₁ := strncpy_sameOn same₀ (fun _ _ _ => rfl) hheader
  rw [Nat.zero_add] at same₁
  obtain ⟨hnext, hle, same₂⟩ := toStr_sameOn count (by decide +kernel) same₁
  have same₃ := strncpy_sameOn same₂ (fun _ _ _ => rfl) hseparator
  have same₄ := strncpy_sameOn same₃ hbody text
  have same₅ := strncpy_sameOn same₄ (fun _ _ _ => rfl) hseparator
  have htotal : (count + BitVec.ofNat 32 (httpHeader.length + 4 * 2)).toNat ≤
      count.toNat + (httpHeader.length + 4 * 2) := by
    rw [BitVec.toNat_add]
    exact (Nat.mod_le _ _).trans (Nat.add_le_add_left (Nat.mod_le _ _) _)
  dsimp only [httpResponse]
  rw [hnext]
  refine ⟨rfl, fun x _ hx => same₅ ⟨Nat.zero_le x, ?_⟩⟩
  have hcut : ((count + BitVec.ofNat 32 (httpHeader.length + 4 * 2)).setWidth 16).toNat ≤
      (count + BitVec.ofNat 32 (httpHeader.length + 4 * 2)).toNat := by
    rw [BitVec.toNat_setWidth]
    exact Nat.mod_le _ _
  omega

end

/-! ## The services -/

/-- The files are the same, and no byte of them is zero. -/
structure Services.Alike (app app' : Services) : Prop where
  reads : app'.reads = app.reads
  count : ∀ i, (app'.file i).count = (app.file i).count
  body : ∀ i, (app.file i).count.msb = false →
    ByteMem.AgreeOn 0 (app.file i).count.toNat (app.file i).body (app'.file i).body
  text : ∀ i, (app.file i).count.msb = false → ∀ j < (app.file i).count.toNat,
    (app.file i).body j ≠ 0

theorem tcpEchoRead_secure : SecureRead Services.Alike tcpEchoRead := by
  intro app app' heap heap' data data' sz happ hdata
  refine ⟨happ, .cons (.tcpSend (hdata.mono ?_)) .nil⟩
  rw [BitVec.toNat_setWidth]
  exact Nat.mod_le _ _

theorem httpRead_secure : SecureRead Services.Alike httpRead := by
  intro app app' heap heap' data data' sz happ _
  have happ' : Services.Alike { app with reads := app.reads + 1 }
      { app' with reads := app.reads + 1 } :=
    ⟨rfl, happ.count, happ.body, happ.text⟩
  dsimp only [httpRead]
  rw [happ.reads, happ.count]
  split
  · exact ⟨happ', .nil⟩
  · next hcount =>
    have hsign : (app.file app.reads).count.slt 0 = (app.file app.reads).count.msb :=
      BitVec.slt_zero_eq_msb
    have hmsb : (app.file app.reads).count.msb = false := Bool.eq_false_iff.mpr (hsign ▸ hcount)
    obtain ⟨htotal, agree⟩ := httpResponse_agreeOn heap heap' (happ.body app.reads hmsb)
      (happ.text app.reads hmsb)
    refine ⟨happ', .cons ?_ (.cons .tcpClose .nil)⟩
    rw [htotal]
    exact .tcpSend agree

theorem udpEchoNotify_secure : SecureNotify Services.Alike udpEchoNotify :=
  fun _ _ _ _ _ _ happ hdata => ⟨happ, .cons ⟨rfl, rfl, hdata⟩ .nil⟩

/-! ## Frames -/

/-- The IP header of a frame. -/
def frameIp (m : ByteMem) : Ipv4Header := Ipv4Header.load (m.shift sizeofEthernetFrame)

/-- What follows the IP header. -/
def framePayload (m : ByteMem) : ByteMem :=
  (m.shift sizeofEthernetFrame).shift (frameIp m).hdrLen.toNat

/-- The first `n` bytes hold the headers of the frame and, by the lengths that it gives for
itself, what the kernel reads behind them. -/
structure Inside (m : ByteMem) (n : Nat) : Prop where
  ethernet : 14 ≤ n
  arp : ntos (m.read 12 2) = 0x0806 → 42 ≤ n
  ip : ntos (m.read 12 2) = 0x0800 → 34 ≤ n
  icmp : ntos (m.read 12 2) = 0x0800 → (frameIp m).proto = 1 →
    8 ≤ (ntos (frameIp m).totalLen - (frameIp m).hdrLen).toNat →
      14 + (frameIp m).hdrLen.toNat +
        (ntos (frameIp m).totalLen - (frameIp m).hdrLen).toNat ≤ n
  tcp : ∀ dev g, frameSegment dev m = some g → 14 + (frameIp m).hdrLen.toNat + 20 ≤ n ∧
    (g.len.toNat ≤ 2048 →
      14 + (frameIp m).hdrLen.toNat + (4 * g.hdr.offset.toNat + g.len.toNat) ≤ n)
  udp : ntos (m.read 12 2) = 0x0800 → (frameIp m).proto = 17 →
    14 + (frameIp m).hdrLen.toNat + 8 ≤ n ∧
      (ntos ((framePayload m).read 2 2) = 7 →
        14 + (frameIp m).hdrLen.toNat + (8 + (ntos ((framePayload m).read 4 2)).toNat) ≤ n)

/-- The two kernels have the same tables and files, and sent the same frames so far. Their
heaps, the addresses of their streams and what the records of these leave uninitialised
may differ. -/
structure Kernel.SameKnowledge (k k' : Kernel Services) : Prop where
  net : k.net.Alike k'.net
  streams : List.Forall₂ Stream.Alike k.allStreams k'.allStreams
  listeners : k'.allListeners = k.allListeners
  ports : k'.listeningPorts = k.listeningPorts
  app : k.app.Alike k'.app

theorem Ipv4Header.load_congr {m m' : ByteMem} (h : ByteMem.AgreeOn 0 20 m m') :
    Ipv4Header.load m' = Ipv4Header.load m := by
  have hbyte : ∀ x < 20, m x = m' x := fun x hx => h x (Nat.zero_le x) (by omega)
  rw [Ipv4Header.load, Ipv4Header.load, h.read (by decide), h.read (by decide),
    hbyte 0 (by decide), hbyte 9 (by decide)]

theorem arpPacket_agree {n n' : Net} (h : n.Alike n') (dev : NetDevice) {data data' : ByteMem}
    (agree : ByteMem.AgreeOn 0 28 data data') :
    (arpPacket dev data n).Agree Net.Alike (arpPacket dev data' n') := by
  dsimp only [arpPacket]
  rw [← agree.read (a := 6) (k := 2) (by decide), ← agree.read (a := 8) (k := 6) (by decide),
    ← agree.read (a := 14) (k := 4) (by decide), ← agree.read (a := 24) (k := 4) (by decide)]
  split
  · exact .ok h
  · split
    · exact reply_agree h dev _ _ false
    · unfold arpStore
      split
      · split
        · exact .ok ⟨by simp only [h.table], h.ipDevices, h.sent⟩
        · exact .error_right
      · exact .error_left

theorem registerDevice_agree {n n' : Net} (h : n.Alike n') (dev : NetDevice) :
    (registerDevice dev n).Agree Net.Alike (registerDevice dev n') := by
  dsimp only [registerDevice, ipAddDevice]
  rw [h.ipDevices]
  refine .bind (R := Eq) (fun a c ha hc => Except.ok.inj (ha.symm.trans hc)) ?_
  rintro devices _ rfl
  exact .ok ⟨h.table, rfl, h.sent⟩

section

variable {k k' : Kernel Services}

theorem Kernel.SameKnowledge.alike (same : k.SameKnowledge k') (serviced : k.Serviced) :
    k.Alike Services.Alike k' := by
  refine ⟨⟨same.net, same.app⟩, same.streams, fun s hs => ?_⟩
  obtain ⟨ok, service⟩ := serviced.streams s hs
  refine ⟨ok.readMax, ?_⟩
  obtain hfn | hfn := service <;> rw [hfn]
  · exact tcpEchoRead_secure
  · exact httpRead_secure

theorem Kernel.Serviced.secureAccept (serviced : k.Serviced) :
    ∀ l ∈ k.allListeners, SecureAccept Services.Alike l.accept := by
  intro l hl app app' happ
  obtain haccept | haccept := serviced.listeners l hl <;> rw [haccept]
  · exact ⟨happ, rfl, tcpEchoRead_secure⟩
  · exact ⟨happ, rfl, httpRead_secure⟩

/-- The output of the two kernels for frames that agree on what is read of them. -/
theorem ethernetPacket_agree (same : k.SameKnowledge k') (serviced : k.Serviced)
    (hports : k.listeningPorts = [⟨7, udpEchoNotify⟩]) {n : Nat} {m m' : ByteMem}
    (agree : ByteMem.AgreeOn 0 n m m') (inside : Inside m n) (dev : NetDevice) :
    (ethernetPacket dev m k).Agree (Kernel.Out Services.Alike) (ethernetPacket dev m' k') := by
  have hpacket := agree.shift sizeofEthernetFrame
  dsimp only [ethernetPacket]
  rw [← agree.read (a := 12) (k := 2) inside.ethernet]
  split
  · next htype =>
    have hip := inside.ip htype
    dsimp only [ipPacket]
    rw [Ipv4Header.load_congr (hpacket.mono (by change 20 ≤ n - 14; omega))]
    refine .bind (registerDevice_agree same.net dev) fun n₁ n₁' h₁ => ?_
    have hpayload := hpacket.shift (frameIp m).hdrLen.toNat
    have hroom : ∀ {c : Nat}, 14 + (frameIp m).hdrLen.toNat + c ≤ n →
        ByteMem.AgreeOn 0 c (framePayload m)
          ((m'.shift sizeofEthernetFrame).shift (frameIp m).hdrLen.toNat) := fun hc =>
      hpayload.mono (by change _ ≤ n - 14 - _; omega)
    split
    · next hproto =>
      exact .bind (icmpSegment_agree h₁ _ dev fun hlen => hroom (inside.icmp htype hproto hlen))
        fun n₂ n₂' h₂ => .ok ⟨h₂, same.app⟩
    · split
      · next hproto =>
        have hg : frameSegment dev m = some ⟨dev, _, _, _⟩ := if_pos ⟨htype, hproto⟩
        obtain ⟨hheader, hdata⟩ := inside.tcp dev _ hg
        have alike := same.alike serviced
        have alike₁ : Kernel.Alike Services.Alike { k with net := n₁ } { k' with net := n₁' } :=
          ⟨⟨h₁, same.app⟩, alike.streams, alike.secure⟩
        refine tcpSegment_agree alike₁ same.listeners serviced.secureAccept dev _ _ (hroom hheader)
          fun hlen x hlo hhi => hroom (hdata hlen) x (Nat.zero_le x) ?_
        rw [Nat.zero_add]
        exact hhi
      · split
        · next hproto =>
          obtain ⟨hheader, hdata⟩ := inside.udp htype hproto
          have secure : ∀ p ∈ k.listeningPorts, SecureNotify Services.Alike p.cb := by
            rw [hports]
            exact List.forall_mem_singleton.mpr udpEchoNotify_secure
          dsimp only [udpDatagram]
          rw [same.ports]
          refine udpNotify_agree ?_ dev _ secure (hroom hheader) ?_
          · exact ⟨h₁, same.app⟩
          · rw [hports]
            exact List.forall_mem_singleton.mpr fun hport => hroom (hdata hport)
        · exact .ok ⟨h₁, same.app⟩
  · split
    · next htype =>
      refine .bind (arpPacket_agree same.net dev (hpacket.mono ?_)) fun n₁ n₁' h₁ =>
        .ok ⟨h₁, same.app⟩
      have := inside.arp htype
      change 28 ≤ n - 14
      omega
    · exact .ok ⟨same.net, same.app⟩

end

/-- The concrete device of the runs below. -/
def testDevice : NetDevice := ⟨0xC0A80302, 0⟩

/-- Files that are all empty. -/
def noFiles : Nat → FileRead := fun _ => ⟨0, fun _ => 0, by decide⟩

/-- Another heap, with everything else as it is. -/
theorem sameKnowledge_junk (k : Kernel Services) (happ : k.app.Alike k.app)
    (junk : Nat → ByteMem) :
    k.SameKnowledge { k with net := { k.net with junk := junk } } where
  net := ⟨rfl, rfl, List.forall₂_same.mpr fun _ _ => ⟨rfl, rfl, fun _ _ => rfl⟩⟩
  streams := List.forall₂_same.mpr fun s _ =>
    .intro s.addr s.pendingAck s.readBuf fun _ _ _ => rfl
  listeners := rfl
  ports := rfl
  app := happ

theorem noFiles_alike : Services.Alike ⟨noFiles, 0⟩ ⟨noFiles, 0⟩ :=
  ⟨rfl, fun _ => rfl, fun _ _ _ _ _ => rfl, fun _ _ j hj => absurd hj (Nat.not_lt_zero j)⟩

/-- The kernel once it knows the peer. -/
theorem arp_known : ∃ k : Kernel Services,
    Transition.exec receive (bootServices (fun _ _ => 0) noFiles) [(testDevice, peerArp)] = .ok k ∧
      k.app.Alike k.app := by
  have hframe : (ethernetPacket testDevice peerArp (bootServices (fun _ _ => 0) noFiles)).Total
      fun k => k.app.Alike k.app := by
    dsimp only [ethernetPacket]
    rw [if_neg (by decide +kernel), if_pos (by decide +kernel)]
    refine .bind (Q := fun _ => True) ?_ fun n _ => .ok noFiles_alike
    have sound := bootServices_sound (fun _ _ => 0) noFiles
    refine (arpPacket_total sound.fresh testDevice _ ?_).mono fun _ _ => trivial
    exact fun hfull => absurd hfull.2.2 (by decide)
  obtain ⟨k, hk, happ⟩ := hframe
  exact ⟨k, Except.bind_eq_ok.mpr ⟨k, hk, rfl⟩, happ⟩

/-- An echo request of 42 bytes that counts one byte more: the reply has that byte. -/
theorem echo_beyond_frame : ¬∀ (junk : Nat → ByteMem) (file : Nat → FileRead)
    (frames : List (NetDevice × ByteMem)) (k k' : Kernel Services),
    Transition.exec receive (bootServices junk file) frames = .ok k → k.SameKnowledge k' →
      ∀ (n : Nat) (m m' : ByteMem), ByteMem.AgreeOn 0 n m m' →
        ∀ (dev : NetDevice) (k₁ k₁' : Kernel Services), ethernetPacket dev m k = .ok k₁ →
          ethernetPacket dev m' k' = .ok k₁' →
            List.Forall₂ (fun f f' => f'.2.currSize = f.2.currSize ∧
              ByteMem.AgreeOn 0 f.2.currSize.toNat f.2.frame f'.2.frame)
              k₁.net.sent k₁'.net.sent := by
  intro claim
  have hrun : ∀ b : BitVec 8, b = 0 ∨ b = 1 → Transition.check receive (fun _ _ => True)
      (fun k => k.net.sent.map (fun f => (f.2.currSize, f.2.frame 42)) == [(43, b)])
      (bootServices (fun _ _ => 0) noFiles)
      [(testDevice, peerArp), (testDevice, (pingFrame 29).write 42 1 b)] = true := by
    rintro b (rfl | rfl) <;> decide +kernel
  have hping : ∀ (b : BitVec 8) (k : Kernel Services), b = 0 ∨ b = 1 →
      Transition.exec receive (bootServices (fun _ _ => 0) noFiles) [(testDevice, peerArp)] =
        .ok k →
        ∃ k₁, ethernetPacket testDevice ((pingFrame 29).write 42 1 b) k = .ok k₁ ∧
          k₁.net.sent.map (fun f => (f.2.currSize, f.2.frame 42)) = [(43, b)] := by
    intro b k hb hk
    obtain ⟨k₁, run, hsent⟩ := Transition.Run.of_check (hrun b hb)
    cases run with
    | @cons _ k₀ _ _ _ _ harp rest =>
        cases rest with
        | cons _ hstep last =>
            cases last
            obtain ⟨k₀', hk₀, hlast⟩ := Except.bind_eq_ok.mp hk
            cases hlast
            cases harp.symm.trans hk₀
            exact ⟨k₁, hstep, eq_of_beq hsent⟩
  obtain ⟨k, hk, happ⟩ := arp_known
  obtain ⟨k₁, hk₁, hsent⟩ := hping 0 k (Or.inl rfl) hk
  obtain ⟨k₁', hk₁', hsent'⟩ := hping 1 k (Or.inr rfl) hk
  have agree : ByteMem.AgreeOn 0 42 ((pingFrame 29).write 42 1 0)
      ((pingFrame 29).write 42 1 1) := by
    intro x _ hx
    rw [ByteMem.write_apply_of_not_mem (by omega), ByteMem.write_apply_of_not_mem (by omega)]
  have hsame := claim _ _ _ k k hk (sameKnowledge_junk k happ k.net.junk) 42 _ _ agree testDevice k₁
    k₁' hk₁ hk₁'
  obtain ⟨f, hf, hfb⟩ := List.map_eq_singleton_iff.mp hsent
  obtain ⟨f', hf', hfb'⟩ := List.map_eq_singleton_iff.mp hsent'
  rw [hf, hf'] at hsame
  obtain ⟨hsize, hzero⟩ := Prod.mk.inj hfb
  obtain ⟨_, hone⟩ := Prod.mk.inj hfb'
  cases hsame with
  | cons hbytes _ =>
      have hbyte := hbytes.2 42 (Nat.zero_le _) (by rw [hsize]; decide)
      rw [hzero, hone] at hbyte
      exact absurd hbyte (by decide)

/-- In every state that the kernel reaches with its services, and in every other memory that
holds the same tables: two frames that agree on their first `n` bytes, within which the
lengths stay that they give for themselves, make the kernel send the same frames, but for
their loose positions. -/
theorem ethernetPacket_discloses_nothing (junk : Nat → ByteMem) (file : Nat → FileRead)
    (frames : List (NetDevice × ByteMem)) (k k' : Kernel Services)
    (run : Transition.exec receive (bootServices junk file) frames = .ok k)
    (same : k.SameKnowledge k') (n : Nat) (m m' : ByteMem) (agree : ByteMem.AgreeOn 0 n m m')
    (inside : Inside m n) (dev : NetDevice) (k₁ k₁' : Kernel Services)
    (h : ethernetPacket dev m k = .ok k₁) (h' : ethernetPacket dev m' k' = .ok k₁') :
    List.Forall₂ SameFrame k₁.net.sent k₁'.net.sent := by
  have sound := run_sound run
  exact (ethernetPacket_agree same sound.serviced sound.ports agree inside dev k₁ k₁' h h').net.sent

/-- An echo request of 98 bytes, on two heaps. -/
theorem ethernetPacket_discloses_run : ∃ k k₁ k₁' : Kernel Services,
    Transition.exec receive (bootServices (fun _ _ => 0) noFiles) [(testDevice, peerArp)] = .ok k ∧
      ethernetPacket testDevice (pingFrame 84) k = .ok k₁ ∧
      ethernetPacket testDevice ((pingFrame 84).write 98 1 1)
        { k with net := { k.net with junk := fun _ _ => 1 } } = .ok k₁' ∧
      List.Forall₂ SameFrame k₁.net.sent k₁'.net.sent := by
  obtain ⟨k, hk, happ⟩ := arp_known
  have sound := run_sound hk
  have sound' : Kernel.Sound { k with net := { k.net with junk := fun _ _ => 1 } } :=
    sound.grows (n := { k.net with junk := fun _ _ => 1 }) sound.fresh sound.devices (Nat.le_refl _)
      (fun _ ha => ha) k.app
  have passes : ∀ (b : BitVec 8) (k : Kernel Services), b = 0 ∨ b = 1 →
      Passes testDevice ((pingFrame 84).write 98 1 b) k := by
    intro b k hb
    refine ⟨?_, ?_, fun h => absurd h.1 ?_, ?_⟩
    · unfold IcmpOverflow
      obtain rfl | rfl := hb <;> decide +kernel
    · unfold UdpOverflow
      obtain rfl | rfl := hb <;> decide +kernel
    · obtain rfl | rfl := hb <;> decide +kernel
    · rintro ⟨g, s, hg, _⟩
      dsimp only [frameSegment] at hg
      rw [if_neg (by obtain rfl | rfl := hb <;> decide +kernel)] at hg
      exact nomatch hg
  have hzero : (pingFrame 84).write 98 1 (0 : BitVec 8) = pingFrame 84 := by
    funext x
    unfold ByteMem.write
    split
    · next hx => obtain rfl : x = 98 := by omega
                 rfl
    · rfl
  obtain ⟨k₁, hk₁, _⟩ := sound.frame_total (hzero ▸ passes 0 k (Or.inl rfl))
  obtain ⟨k₁', hk₁', _⟩ := sound'.frame_total (passes 1 _ (Or.inr rfl))
  refine ⟨k, k₁, k₁', hk, hk₁, hk₁', ?_⟩
  refine ethernetPacket_discloses_nothing _ _ _ k _ hk (sameKnowledge_junk k happ _) 98 _ _
    (fun x _ hx => ?_) ?_ testDevice k₁ k₁' hk₁ hk₁'
  · rw [ByteMem.write_apply_of_not_mem (by omega)]
  · refine ⟨by decide, fun h => absurd h (by decide +kernel), by decide, by decide +kernel,
      fun dev g hg => ?_, fun _ h => absurd h (by decide +kernel)⟩
    dsimp only [frameSegment] at hg
    rw [if_neg (by decide +kernel)] at hg
    exact nomatch hg

end BadOs
