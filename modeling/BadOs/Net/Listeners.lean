import BadOs.Net.Emission
import BadOs.Net.Removal

/-!
# Ports with a listener

`tcp_listen` alone adds to the list of listeners, and nothing removes one. A `Syn` meets the
listener of its port, if a call for that port succeeded before.
-/

namespace BadOs

variable {σ : Type}

/-- A call of `tcp_listen` in the run has returned `EOK`. -/
def Registered (junk : Nat → ByteMem) (app : σ) (ops : List (KernelOp σ)) (port : BitVec 16)
    (accept : σ → σ × TcpReadFn σ) : Prop :=
  ∃ before after k, ops = before ++ .tcpListen port accept :: after ∧
    Transition.exec kernelStep (.boot junk app) before = .ok k ∧ (tcpListen port accept k).1 = .ok

/-- A `Syn` has opened this stream, and the answer has left if the peer's address is known. -/
structure OpenedBy (dev : NetDevice) (hdr : TcpHdr) (srcIp : BitVec 32) (fn : TcpReadFn σ)
    (k k₁ : Kernel σ) (s : Stream σ) : Prop where
  streams : k₁.allStreams = s :: k.allStreams
  readFn : s.readFn = fn
  localPort : s.localPort = ntos hdr.destPort
  remotePort : s.remotePort = ntos hdr.srcPort
  localAddr : s.localAddr = dev.ip
  remoteAddr : s.remoteAddr = srcIp
  ackSeq : s.ackSeq = ntol hdr.sequence + 1
  answer : ∃ (h : TcpHdr) (g : Segment), ntol h.ack = s.ackSeq ∧
    h.flags = TcpFlag.syn ||| TcpFlag.ack ∧ h.srcPort = hdr.destPort ∧ h.destPort = hdr.srcPort ∧
    k₁.log = k.log ++ [.segment s.addr h []] ∧ g.Carries dev h [] ∧
    segmentsSent k₁.net = segmentsSent k.net ++
      if (k.net.macOf srcIp).isSome then [(srcIp, g)] else []

/-! ## Registration -/

section

variable {k k' : Kernel σ}

theorem tcpListen_inUse {port : BitVec 16} (accept : σ → σ × TcpReadFn σ)
    (h : ∃ l ∈ k.allListeners, l.port = port) : tcpListen port accept k = (.addrInUse, k) := by
  obtain ⟨l, hl, hport⟩ := h
  have hany : (k.allListeners.any fun l => l.port == port) = true :=
    List.any_eq_true.mpr ⟨l, hl, beq_iff_eq.mpr hport⟩
  unfold tcpListen
  rw [if_pos hany]

theorem tcpListen_ok {port : BitVec 16} (accept : σ → σ × TcpReadFn σ)
    (h : ∀ l ∈ k.allListeners, l.port ≠ port) : (tcpListen port accept k).1 = .ok ∧
      (tcpListen port accept k).2.allListeners = ⟨port, accept⟩ :: k.allListeners := by
  have hany : ¬(k.allListeners.any fun l => l.port == port) = true := by
    intro hany
    obtain ⟨l, hl, hport⟩ := List.any_eq_true.mp hany
    exact h l hl (eq_of_beq hport)
  unfold tcpListen
  rw [if_neg hany]
  exact ⟨rfl, rfl⟩

/-- Only a successful call of `tcp_listen` changes the list. -/
theorem kernelStep_listeners {op : KernelOp σ} (h : kernelStep k op = .ok k') :
    (∃ port accept, op = .tcpListen port accept ∧ (tcpListen port accept k).1 = .ok ∧
        (∀ l ∈ k.allListeners, l.port ≠ port) ∧
        k'.allListeners = ⟨port, accept⟩ :: k.allListeners) ∨
      k'.allListeners = k.allListeners ∧
        ∀ port accept, op = .tcpListen port accept → (tcpListen port accept k).1 ≠ .ok := by
  cases op with
  | frame dev m =>
      refine .inr ⟨?_, fun _ _ hop => by cases hop⟩
      obtain ⟨g, n, _, _, h⟩ | ⟨_, n, app, _, rfl⟩ := ethernetPacket_cases dev m k h
      · exact (tcpSegment_sameServices h).allListeners
      · rfl
  | segment g => exact .inr ⟨(tcpSegment_sameServices h).allListeners, fun _ _ hop => by cases hop⟩
  | tcpListen port accept =>
      cases h
      by_cases hport : ∃ l ∈ k.allListeners, l.port = port
      · refine .inr ⟨?_, ?_⟩
        · rw [tcpListen_inUse accept hport]
        · rintro _ _ ⟨⟩
          rw [tcpListen_inUse accept hport]
          exact fun h => by cases h
      · have hfree : ∀ l ∈ k.allListeners, l.port ≠ port := fun l hl hl' => hport ⟨l, hl, hl'⟩
        obtain ⟨hok, hlisteners⟩ := tcpListen_ok accept hfree
        exact .inl ⟨port, accept, rfl, hok, hfree, hlisteners⟩
  | udpListen port onRead =>
      cases h
      exact .inr ⟨rfl, fun _ _ hop => by cases hop⟩
  | tcpSend addr data sz =>
      exact .inr ⟨(onStream_sameServices h).allListeners, fun _ _ hop => by cases hop⟩
  | tcpClose addr =>
      exact .inr ⟨(onStream_sameServices h).allListeners, fun _ _ hop => by cases hop⟩

end

section

variable {junk : Nat → ByteMem} {app : σ} {ops : List (KernelOp σ)} {k : Kernel σ}

/-- A call has succeeded by the end of a longer run if it had before, or is the last step. -/
theorem registered_concat {op : KernelOp σ}
    (run : Transition.exec kernelStep (.boot junk app) ops = .ok k) {port : BitVec 16}
    {accept : σ → σ × TcpReadFn σ} :
    Registered junk app (ops ++ [op]) port accept ↔ Registered junk app ops port accept ∨
      op = .tcpListen port accept ∧ (tcpListen port accept k).1 = .ok := by
  constructor
  · rintro ⟨before, after, k₁, hops, hrun, hok⟩
    obtain rfl | ⟨after, last, rfl⟩ := List.eq_nil_or_concat after
    · obtain ⟨rfl, rfl⟩ := List.append_singleton_inj.mp hops
      cases run.symm.trans hrun
      exact .inr ⟨rfl, hok⟩
    · rw [List.concat_eq_append, ← List.cons_append, ← List.append_assoc] at hops
      obtain ⟨rfl, rfl⟩ := List.append_singleton_inj.mp hops
      exact .inl ⟨before, after, k₁, rfl, hrun, hok⟩
  · rintro (⟨before, after, k₁, rfl, hrun, hok⟩ | ⟨rfl, hok⟩)
    · refine ⟨before, after ++ [op], k₁, ?_, hrun, hok⟩
      rw [List.append_assoc, List.cons_append]
    · exact ⟨ops, [], k, rfl, run, hok⟩

/-- The listeners are those of the successful calls, with different ports. -/
theorem run_listeners (run : Transition.exec kernelStep (.boot junk app) ops = .ok k) :
    (∀ port accept, ⟨port, accept⟩ ∈ k.allListeners ↔ Registered junk app ops port accept) ∧
      (k.allListeners.map ListenState.port).Nodup := by
  induction ops using List.reverseRecOn generalizing k with
  | nil =>
      cases run
      refine ⟨fun port accept => ⟨fun h => (nomatch h), ?_⟩, List.nodup_nil⟩
      rintro ⟨before, after, _, hops, _⟩
      exact absurd hops.symm (List.append_ne_nil_of_right_ne_nil _ (List.cons_ne_nil _ _))
  | append_singleton ops op ih =>
      obtain ⟨k₀, hrun, hstep⟩ := Transition.exec_concat_eq_ok.mp run
      obtain ⟨hmem, hnodup⟩ := ih hrun
      obtain ⟨p, f, rfl, hok, hfree, hlisteners⟩ | ⟨hlisteners, hnot⟩ := kernelStep_listeners hstep
      · rw [hlisteners]
        constructor
        · intro port accept
          rw [registered_concat hrun, ← hmem, List.mem_cons, or_comm]
          apply or_congr_right
          constructor
          · rintro ⟨⟩
            exact ⟨rfl, hok⟩
          · rintro ⟨⟨⟩, _⟩
            rfl
        · refine List.nodup_cons.mpr ⟨fun h => ?_, hnodup⟩
          obtain ⟨l, hl, hport⟩ := List.mem_map.mp h
          exact hfree l hl hport
      · rw [hlisteners]
        refine ⟨fun port accept => ?_, hnodup⟩
        rw [registered_concat hrun, hmem]
        exact (or_iff_left fun h => hnot _ _ h.1 h.2).symm

/-- The ports with a listener are those with a successful call. -/
theorem run_listener_iff (run : Transition.exec kernelStep (.boot junk app) ops = .ok k)
    (port : BitVec 16) :
    (∃ l ∈ k.allListeners, l.port = port) ↔ ∃ f, Registered junk app ops port f := by
  constructor
  · rintro ⟨⟨port, accept⟩, hl, rfl⟩
    exact ⟨accept, ((run_listeners run).1 _ _).mp hl⟩
  · rintro ⟨f, hf⟩
    exact ⟨_, ((run_listeners run).1 _ _).mpr hf, rfl⟩

/-- The listener that a `Syn` meets is the one of the successful call for its port. -/
theorem find_listener (run : Transition.exec kernelStep (.boot junk app) ops = .ok k)
    {port : BitVec 16} {accept : σ → σ × TcpReadFn σ} (h : Registered junk app ops port accept) :
    k.allListeners.find? (fun l => l.port == port) = some ⟨port, accept⟩ := by
  obtain ⟨hmem, hnodup⟩ := run_listeners run
  exact Keyed.Unique.find?_key hnodup ((hmem port accept).mpr h)

end

/-! ## The stream of a `Syn` -/

section

variable {k k' k₁ : Kernel σ}

/-- The stream and its answer, at the next address. -/
theorem syn_opened (dev : NetDevice) {hdr : TcpHdr} (srcIp : BitVec 32) {l : ListenState σ}
    (hl : k.allListeners.find? (fun l => l.port == ntos hdr.destPort) = some l) :
    (syn dev hdr srcIp k).Total fun k₁ => ∃ s, s.addr = newAddr k ∧
      OpenedBy dev hdr srcIp (l.accept k.app).2 k k₁ s := by
  unfold syn
  rw [hl]
  refine .bind (ipSbuffAlloc_total k.net 20 (by decide)) ?_
  rintro ⟨sb, n₁⟩ b
  have hnet : n₁ = k.net.kmemAlloc.2 := b.net
  have hlive : sb.addr ∈ n₁.kmemAlloc.2.live := List.mem_cons_of_mem _ b.mem_live
  have htotal : 54 + (0 : BitVec 16).toNat = sb.totalSize.toNat := b.totalSize.symm
  refine .bind (sendSegment_segments hlive b.head htotal _ _ srcIp dev) ?_
  rintro n₂ ⟨g, hcarries, hsent⟩
  refine .ok ⟨_, ?_, rfl, rfl, rfl, rfl, rfl, rfl, rfl, _, g, ?_, ?_, ?_, ?_, rfl, hcarries, ?_⟩
  · change n₁.next = k.net.next + 1
    rw [hnet]
    rfl
  · exact ntol_ntol _
  · exact BitVec.or_zero
  · exact ntos_ntos _
  · exact ntos_ntos _
  · rw [hsent, hnet]
    rfl

/-- Without a listener no stream is touched. -/
theorem syn_refused (fresh : k.net.Fresh) (dev : NetDevice) {hdr : TcpHdr} (srcIp : BitVec 32)
    (hl : ∀ l ∈ k.allListeners, l.port ≠ ntos hdr.destPort) :
    (syn dev hdr srcIp k).Total fun k₁ => k₁.allStreams = k.allStreams := by
  have hnone : k.allListeners.find? (fun l => l.port == ntos hdr.destPort) = none := by
    apply List.find?_eq_none.mpr
    intro l hmem
    exact mt eq_of_beq (hl l hmem)
  unfold syn
  rw [hnone]
  refine ((resetStream_total fresh dev hdr srcIp).and_post
    (resetStream_post dev hdr srcIp k)).mono ?_
  rintro _ ⟨_, n, _, rfl⟩
  rfl

/-- The new stream is still there when the segment is done with. -/
theorem tcpSegment_opened {g : Segment} {l : ListenState σ} (hsyn : g.has TcpFlag.syn = true)
    (hl : g.listener k = some l) (h : tcpSegment g.dev g.data g.sz g.srcIp k = .ok k') :
    ∃ s ∈ k'.allStreams, s.addr = newAddr k ∧ s.readFn = (l.accept k.app).2 ∧ s.quad = g.quad := by
  obtain ⟨k₁, hopened, hrest⟩ := tcpSegment_cases h
  cases hopened with
  | kept n hkept _ => exact nomatch (Segment.opens_of_listener hsyn hl).symm.trans hkept
  | opened l' junk n _ hl' _ _ =>
      cases hl.symm.trans hl'
      obtain ⟨hnone, _⟩ | ⟨s, hs, hserve⟩ := hrest
      · exact nomatch (find_opened g _ _ _ _).symm.trans hnone
      · cases (find_opened g _ _ _ _).symm.trans hs
        obtain ⟨_, _, ⟨s', hconn, _, hstreams⟩ | ⟨hremoved, _⟩⟩ := hserve.frame
        · refine ⟨s', ?_, hconn.addr, hconn.readFn, hconn.quad⟩
          rw [hstreams]
          exact Keyed.mem_replace.mpr (.inr ⟨rfl, _, List.mem_cons_self, hconn.addr.symm⟩)
        · exact absurd hremoved (not_removed_of_synReceived rfl)

/-- A segment that opens no stream leaves no new one. -/
theorem tcpSegment_kept {g : Segment} (hopens : g.opens k = false)
    (h : tcpSegment g.dev g.data g.sz g.srcIp k = .ok k') :
    ∀ s ∈ k'.allStreams, ∃ t ∈ k.allStreams, t.addr = s.addr := by
  obtain ⟨k₁, hopened, hrest⟩ := tcpSegment_cases h
  cases hopened with
  | opened l junk n hsyn hl _ _ =>
      exact nomatch (Segment.opens_of_listener hsyn hl).symm.trans hopens
  | kept n _ _ =>
      obtain ⟨_, n, _, rfl⟩ | ⟨t, _, hserve⟩ := hrest
      · exact fun s hs => ⟨s, hs, rfl⟩
      · obtain ⟨_, _, ⟨s', _, _, hstreams⟩ | ⟨_, hstreams⟩⟩ := hserve.frame
        · intro s hs
          rw [hstreams] at hs
          obtain ⟨hs, _⟩ | ⟨rfl, c, hc, haddr⟩ := Keyed.mem_replace.mp hs
          · exact ⟨s, hs, rfl⟩
          · exact ⟨c, hc, haddr⟩
        · intro s hs
          rw [hstreams] at hs
          exact ⟨s, (Keyed.erase_sublist _ _).mem hs, rfl⟩

end

/-! ## Runs -/

/-- In every state of every run the ports of the listeners are those of the successful calls of
`tcp_listen`, all different, and a further call for such a port fails and changes nothing. A
`Syn` to such a port opens a stream with the read function of that call and is answered; a
`Syn` to any other port opens none. -/
theorem listener_demultiplexing (junk : Nat → ByteMem) (app : σ) (ops : List (KernelOp σ))
    (k : Kernel σ) (run : Transition.exec kernelStep (.boot junk app) ops = .ok k) :
    (k.allListeners.map ListenState.port).Nodup ∧
      (∀ port accept,
        ((tcpListen port accept k).1 = .addrInUse ∧
            (tcpListen port accept k).2.allListeners = k.allListeners ↔
          ∃ f, Registered junk app ops port f) ∧
        ((tcpListen port accept k).1 = .ok ↔ ¬∃ f, Registered junk app ops port f)) ∧
      ∀ g : Segment, g.has TcpFlag.syn = true →
        (∀ f, Registered junk app ops (ntos g.hdr.destPort) f →
          (∃ k₁ s, syn g.dev g.hdr g.srcIp k = .ok k₁ ∧ (∀ t ∈ k.allStreams, t.addr ≠ s.addr) ∧
            OpenedBy g.dev g.hdr g.srcIp (f k.app).2 k k₁ s) ∧
          ∀ k', tcpSegment g.dev g.data g.sz g.srcIp k = .ok k' →
            ∃ s ∈ k'.allStreams, (∀ t ∈ k.allStreams, t.addr ≠ s.addr) ∧
              s.readFn = (f k.app).2 ∧ s.quad = g.quad) ∧
        ((¬∃ f, Registered junk app ops (ntos g.hdr.destPort) f) →
          (∃ k₁, syn g.dev g.hdr g.srcIp k = .ok k₁ ∧ k₁.allStreams = k.allStreams) ∧
          ∀ k', tcpSegment g.dev g.data g.sz g.srcIp k = .ok k' →
            ∀ s ∈ k'.allStreams, ∃ t ∈ k.allStreams, t.addr = s.addr) := by
  obtain ⟨heap, _⟩ := run_heapSound run
  have hnew : ∀ a, a = newAddr k → ∀ t ∈ k.allStreams, t.addr ≠ a := by
    intro a ha t ht
    have hbelow : t.addr < k.net.next := heap.wf.below t ht
    have ha : a = k.net.next + 1 := ha
    omega
  refine ⟨(run_listeners run).2, fun port accept => ?_, fun g hsyn =>
    ⟨fun f hf => ?_, fun hnot => ?_⟩⟩
  · rw [← run_listener_iff run]
    by_cases hport : ∃ l ∈ k.allListeners, l.port = port
    · rw [tcpListen_inUse accept hport]
      refine ⟨iff_of_true ⟨rfl, rfl⟩ hport, iff_of_false ?_ (not_not_intro hport)⟩
      exact fun h => by cases h
    · obtain ⟨hok, _⟩ := tcpListen_ok accept fun l hl hl' => hport ⟨l, hl, hl'⟩
      rw [hok]
      refine ⟨iff_of_false ?_ hport, iff_of_true rfl hport⟩
      exact fun h => by cases h.1
  · have hfind := find_listener run hf
    constructor
    · obtain ⟨k₁, hk₁, s, haddr, hopened⟩ := syn_opened g.dev g.srcIp hfind
      exact ⟨k₁, s, hk₁, hnew _ haddr, hopened⟩
    · intro k' hk'
      obtain ⟨s, hs, haddr, hrest⟩ := tcpSegment_opened hsyn hfind hk'
      exact ⟨s, hs, hnew _ haddr, hrest⟩
  · have hnone : ∀ l ∈ k.allListeners, l.port ≠ ntos g.hdr.destPort := by
      intro l hl hport
      exact hnot ((run_listener_iff run _).mp ⟨l, hl, hport⟩)
    refine ⟨syn_refused heap.fresh g.dev g.srcIp hnone, fun k' hk' => tcpSegment_kept ?_ hk'⟩
    have hlistener : g.listener k = none :=
      List.find?_eq_none.mpr fun l hl => mt eq_of_beq (hnone l hl)
    rw [Segment.opens, hlistener]
    exact Bool.and_false _

/-- A second listener for a port, and a `Syn` to the first. -/
theorem listener_demultiplexing_run : ∃ k : Kernel Unit,
    Transition.exec kernelStep (.boot (fun _ _ => 0) ())
      [.tcpListen 80 fun app => (app, fun app _ _ _ => (app, [.tcpClose])),
        .tcpListen 80 fun app => (app, fun app _ _ _ => (app, []))] = .ok k ∧
      (k.allListeners.map ListenState.port).Nodup ∧
      ∃ k₁ s, syn ⟨0xC0A80302, 0⟩ (peerSegment TcpFlag.syn 5 1 0 []).hdr 0xC0A80301 k = .ok k₁ ∧
        k₁.allStreams = s :: k.allStreams ∧ s.localPort = 80 ∧ s.remotePort = 1000 ∧
        s.ackSeq = 2 := by
  have hrun : Transition.check kernelStep (fun _ _ => True) (fun _ => true)
      (Kernel.boot (fun _ _ => 0) ())
      [.tcpListen 80 fun app => (app, fun app _ _ _ => (app, [.tcpClose])),
        .tcpListen 80 fun app => (app, fun app _ _ _ => (app, []))] = true := by
    decide +kernel
  obtain ⟨k, run, _⟩ := Transition.Run.of_check hrun
  obtain ⟨hnodup, _, hsyn⟩ := listener_demultiplexing _ _ _ k run.exec_eq
  have hport : ntos (peerSegment TcpFlag.syn 5 1 0 []).hdr.destPort = 80 := by decide +kernel
  have hregistered : Registered (fun _ _ => 0) () [.tcpListen 80 fun app => (app, fun app _ _ _ =>
      (app, [.tcpClose])), .tcpListen 80 fun app => (app, fun app _ _ _ => (app, []))]
      (ntos (peerSegment TcpFlag.syn 5 1 0 []).hdr.destPort)
      fun app => (app, fun app _ _ _ => (app, [.tcpClose])) := by
    rw [hport]
    exact ⟨[], _, _, rfl, rfl, rfl⟩
  obtain ⟨⟨k₁, s, hk₁, _, hopened⟩, _⟩ :=
    (hsyn (peerSegment TcpFlag.syn 5 1 0 []) (by decide +kernel)).1 _ hregistered
  refine ⟨k, run.exec_eq, hnodup, k₁, s, hk₁, hopened.streams, hopened.localPort.trans hport,
    ?_, ?_⟩
  · rw [hopened.remotePort]
    decide +kernel
  · rw [hopened.ackSeq]
    decide +kernel

end BadOs
