import BadOs.Net.Completion
import BadOs.Net.History

/-!
# Removed streams

A stream is freed once, nothing happens on it afterwards, and it is not found again. One
kind of segment uses it all the same: the acknowledgement frees the stream in `LastAck`,
and `tcp_segment` goes on with its pointer for the payload, the `Psh` and the `Fin`.
-/

namespace BadOs

variable {σ : Type}

/-- The stream was freed. -/
def TcpEvent.isFreed : TcpEvent → Bool
  | .freed _ _ => true
  | _ => false

/-- Nothing happens on a stream after it was freed. -/
def FreedLast (evs : List TcpEvent) : Prop := evs.Pairwise fun e _ => e.isFreed = false

/-- The stream was not freed. -/
def NotFreed (_ : Stream σ) (evs : List TcpEvent) : Prop := ∀ e ∈ evs, e.isFreed = false

/-- The segment frees the stream that it belongs to and goes on with it. -/
def Segment.UsesFreed (g : Segment) (k : Kernel σ) : Prop :=
  ∃ s, g.opens k = false ∧ g.find k.allStreams = some s ∧ g.Reuses s

/-! ## The events of a stream -/

section

variable {s : Stream σ} {evs : List TcpEvent}

theorem NotFreed.append (h : NotFreed s evs) (s' : Stream σ) {evs' : List TcpEvent}
    (h' : ∀ e ∈ evs', e.isFreed = false) : NotFreed s' (evs ++ evs') :=
  List.forall_mem_append.mpr ⟨h, h'⟩

theorem NotFreed.freedLast (h : NotFreed s evs) : FreedLast evs :=
  .imp_of_mem (fun he _ _ => h _ he) (List.pairwise_of_forall fun _ _ => trivial)

theorem NotFreed.append_freedLast (h : NotFreed s evs) (e : TcpEvent) : FreedLast (evs ++ [e]) :=
  List.pairwise_append.mpr ⟨h.freedLast, List.pairwise_singleton _ _, fun e he _ _ => h e he⟩

theorem NotFreed.logInvariant :
    LogInvariant 0 (fun _ _ => True) (NotFreed (σ := σ)) FreedLast where
  opened addr junk dev hdr srcIp fn _ := List.forall_mem_singleton.mpr rfl
  ack s evs hdr h _ := h
  data s evs hdr data len h _ := h
  push s evs calls h _ := by
    refine h.append _ (List.forall_mem_cons.mpr ⟨rfl, fun e he => ?_⟩)
    obtain ⟨hdr, payload, rfl, _⟩ := s.callEvents_segment calls e he
    rfl
  call s evs c h _ := h.append _ (List.forall_mem_singleton.mpr (by cases c <;> rfl))
  fin s evs h _ := h.append _ (List.forall_mem_singleton.mpr rfl)
  acked s evs h _ := h.append_freedLast _
  closed s evs h _ := by
    have hfin : NotFreed s (evs ++ [s.finEvent TcpFlag.ack]) :=
      h.append s (List.forall_mem_singleton.mpr rfl)
    have hlast := hfin.append_freedLast (.freed s.addr s.buffered)
    rw [List.append_assoc] at hlast
    exact hlast

end

/-! ## The heap below TCP -/

section

variable {n : Net}

theorem icmpSegment_grows (fresh : n.Fresh) (sender : BitVec 32) (dev : NetDevice) (data : ByteMem)
    (len : BitVec 16) : (icmpSegment sender dev data len n).Post n.Grows := by
  by_cases hover : data 0 = 8 ∧ 65502 ≤ len.toNat
  · rw [icmpSegment_panic sender dev hover.1 hover.2]
    exact .error
  · exact (icmpSegment_total fresh sender dev data hover).post

/-- A datagram of any size. -/
theorem udpSend_grows (fresh : n.Fresh) (ready : n.ipDevices.Ready mapIntHash) (quad : UdpQuad)
    (data : ByteMem) (size : BitVec 32) :
    (udpSend quad data size n).Post fun r => n.Grows r.2 := by
  by_cases hsmall : size.toNat < 65494
  · exact (udpSend_total fresh ready quad data hsmall).post
  · exact (udpSend_oversized quad data (Nat.le_of_not_lt hsmall)).mono fun _ => False.elim

theorem udpCalls_grows (fresh : n.Fresh) (ready : n.ipDevices.Ready mapIntHash)
    (calls : List UdpCall) : (udpCalls calls n).Post n.Grows := by
  induction calls generalizing n with
  | nil => exact .ok (.refl fresh)
  | cons c calls ih =>
      refine .bind (udpSend_grows fresh ready c.quad c.data c.size) ?_
      rintro ⟨_, n₁⟩ grows
      exact (ih grows.fresh (grows.same.ipDevices ▸ ready)).mono fun n₂ grows' => grows.trans grows'

theorem udpNotify_grows {k : Kernel σ} (fresh : k.net.Fresh)
    (ready : k.net.ipDevices.Ready mapIntHash) (dev : NetDevice) (data : ByteMem)
    (srcIp : BitVec 32) (ports : List (UdpListeningPort σ)) :
    (udpNotify dev data srcIp ports k).Post fun k' => k.net.Grows k'.net := by
  induction ports generalizing k with
  | nil => exact .ok (.refl fresh)
  | cons p ports ih =>
      simp only [udpNotify]
      split
      · refine .bind (udpCalls_grows fresh ready _) fun n grows => ?_
        refine (ih (k := { k with net := n, app := _ }) grows.fresh ?_).mono fun k' grows' =>
          grows.trans grows'
        exact grows.same.ipDevices ▸ ready
      · exact ih fresh ready

/-- The frames that are no segments. -/
theorem arpPacket_heap (fresh : n.Fresh) (dev : NetDevice) (data : ByteMem) :
    (arpPacket dev data n).Post fun n' =>
      n'.Fresh ∧ n'.ipDevices = n.ipDevices ∧ ∀ a ∈ n.live, a ∈ n'.live := by
  by_cases hfull : ntol (data.read 24 4) = dev.ip ∧ ntos (data.read 6 2) ≠ 1 ∧
      n.table.entries.length = 128
  · rw [arpPacket_outOfBounds dev hfull.1 hfull.2.1 hfull.2.2]
    exact .error
  · exact (arpPacket_total fresh dev data hfull).post

end

/-! ## The heap under all steps -/

/-- The streams and buffers on the heap, between two steps. -/
structure Kernel.HeapSound (k : Kernel σ) : Prop where
  wf : k.Wf
  fresh : k.net.Fresh
  live : k.LiveStreams
  devices : k.net.Devices

theorem boot_heapSound (junk : Nat → ByteMem) (app : σ) : (Kernel.boot junk app).HeapSound :=
  ⟨boot_wf junk app, fun _ ha => (nomatch ha), fun _ hs => (nomatch hs), fun h => (nomatch h)⟩

section

variable {k k' k₁ : Kernel σ} {g : Segment} {s : Stream σ}

/-- A stream that was just opened is not in `LastAck`. -/
theorem Segment.Serves.kept_of_lastAck (h : g.Serves k s k₁) (hlast : s.state = .lastAck) :
    g.opens k = false ∧ g.find k.allStreams = some s := by
  obtain ⟨hsyn, hfind⟩ := h
  cases opened_of_eq hsyn with
  | kept n hopens _ => exact ⟨hopens, hfind⟩
  | opened l junk n _ _ _ _ =>
      cases (find_opened g _ _ _ _).symm.trans hfind
      cases hlast

namespace Kernel.HeapSound

theorem grows (h : k.HeapSound) {n : Net} (fresh : n.Fresh) (devices : n.Devices)
    (next : k.net.next ≤ n.next) (live : ∀ a ∈ k.net.live, a ∈ n.live) (app : σ) :
    Kernel.HeapSound { k with net := n, app := app } where
  wf := ⟨h.wf.unique, fun s hs => (h.wf.below s hs).trans_le next⟩
  fresh := fresh
  live s hs := live _ (h.live s hs)
  devices := devices

/-- A segment that does not use the stream that it frees returns, or ends in another trap. -/
theorem segment_within (h : k.HeapSound) (huse : ¬g.UsesFreed k) :
    (tcpSegment g.dev g.data g.sz g.srcIp k).Within (·.HeapSound) (· ≠ .useAfterFree) := by
  by_cases hfault : ∃ s k₁, g.Serves k s k₁ ∧ g.Faults s k₁
  · obtain ⟨s, k₁, hserves, hfault⟩ := hfault
    obtain ⟨herror, hreuse⟩ | herror := segment_fault h.fresh h.live hserves hfault
    · obtain ⟨hopens, hfind⟩ := hserves.kept_of_lastAck hreuse.1.2
      exact absurd ⟨s, hopens, hfind, hreuse⟩ huse
    · exact .inr ⟨_, herror, by decide⟩
  · have hheap := segment_total_or_panic h.wf h.fresh h.live hfault
    have hpost : (tcpSegment g.dev g.data g.sz g.srcIp k).Post (·.Wf) := fun _ => h.wf.segment
    refine ((hheap.and_post hpost).mono ?_).mono_error ?_
    · rintro k' ⟨heap, wf⟩
      refine ⟨wf, heap.fresh, heap.live, ?_⟩
      rw [Net.Devices, heap.same.ipDevices]
      exact h.devices
    · rintro e hpanic rfl
      exact hpanic

theorem segment_useAfterFree (h : k.HeapSound) (huse : g.UsesFreed k) :
    tcpSegment g.dev g.data g.sz g.srcIp k = .error .useAfterFree := by
  obtain ⟨s, hopens, hfind, hreuse⟩ := huse
  obtain ⟨n, hserves, grows⟩ := serves_of_not_opens h.fresh hopens hfind
  refine tcpSegment_error hserves (serve_useAfterFree grows.fresh (fun s hs => ?_)
    (List.mem_of_find?_eq_some hfind) hreuse)
  exact grows.live _ (h.live s hs)

theorem segment_post (h : k.HeapSound) :
    (tcpSegment g.dev g.data g.sz g.srcIp k).Post (·.HeapSound) := by
  by_cases huse : g.UsesFreed k
  · rw [h.segment_useAfterFree huse]
    exact .error
  · exact (h.segment_within huse).post

/-- The first step of `ip_packet`. -/
theorem register (h : k.HeapSound) (dev : NetDevice) :
    (registerDevice dev k.net).Total fun n => n.ipDevices.Ready mapIntHash ∧
      Kernel.HeapSound { k with net := n } := by
  refine (registerDevice_total h.devices dev).mono ?_
  rintro _ ⟨map, ready, rfl⟩
  exact ⟨ready, h.grows (n := { k.net with ipDevices := map }) h.fresh (fun _ => ready)
    (Nat.le_refl _) (fun _ ha => ha) k.app⟩

theorem frame_post (h : k.HeapSound) (dev : NetDevice) (m : ByteMem) :
    (ethernetPacket dev m k).Post (·.HeapSound) := by
  have hdevices : ∀ {n n' : Net}, n.ipDevices.Ready mapIntHash → n.Grows n' → n'.Devices :=
    fun ready grows _ => grows.same.ipDevices.symm ▸ ready
  dsimp only [ethernetPacket]
  split
  · refine .bind (h.register dev).post ?_
    rintro n ⟨ready, h₁⟩
    split
    · refine .bind (icmpSegment_grows h₁.fresh _ dev _ _) fun n₁ grows => .ok ?_
      exact h₁.grows grows.fresh (hdevices ready grows) grows.same.next grows.live k.app
    · split
      · exact h₁.segment_post (g := ⟨dev, _, _, _⟩)
      · split
        · refine ((udpNotify_grows h₁.fresh ready dev _ _ _).and
            (udpNotify_post dev _ _ _ _)).mono ?_
          rintro _ ⟨grows, n₂, app, _, rfl⟩
          exact h₁.grows grows.fresh (hdevices ready grows) grows.same.next grows.live app
        · exact .ok h₁
  · split
    · refine .bind ((arpPacket_heap h.fresh dev _).and (arpPacket_next dev _ k.net)) ?_
      rintro n ⟨⟨fresh, hsame, live⟩, next⟩
      refine .ok (h.grows fresh ?_ next live k.app)
      rw [Net.Devices, hsame]
      exact h.devices
    · exact .ok h

/-- A call of an application from outside. -/
theorem onStream_post (h : k.HeapSound) (addr : Nat) (c : AppCall) :
    (onStream addr c k).Post (·.HeapSound) := by
  unfold onStream
  split
  · exact .error
  · next s hs =>
    have hs := List.mem_of_find?_eq_some hs
    have hgrows : (appCalls s [c] k).Post fun r => k.net.Grows r.2.net := by
      by_cases hover : Oversized [c]
      · rw [appCalls_outOfBounds h.fresh s hover]
        exact .error
      · exact (appCalls_within h.fresh s hover).post
    refine .bind (hgrows.and (appCalls_post s k [c])) ?_
    rintro _ ⟨grows, n, _, rfl⟩
    have hconn := (s.afterCalls_frame [c]).1
    refine .ok ⟨h.wf.replace hs hconn grows.same.next rfl, grows.fresh, fun t ht => ?_, ?_⟩
    · obtain ⟨ht, _⟩ | ⟨rfl, _⟩ := Keyed.mem_replace.mp ht
      · exact grows.live _ (h.live t ht)
      · rw [hconn.addr]
        exact grows.live _ (h.live s hs)
    · intro hsome
      change n.ipDevices.data.isSome = true at hsome
      change n.ipDevices.Ready mapIntHash
      rw [grows.same.ipDevices] at hsome ⊢
      exact h.devices hsome

theorem step (h : k.HeapSound) (op : KernelOp σ) : (kernelStep k op).Post (·.HeapSound) := by
  have alloc := Net.kmemAlloc_grows h.fresh
  cases op with
  | frame dev m => exact h.frame_post dev m
  | segment g => exact h.segment_post
  | tcpListen port accept =>
      refine .ok ?_
      simp only [tcpListen]
      split
      · exact h
      · exact ⟨⟨h.wf.unique, fun s hs => (h.wf.below s hs).trans_le alloc.same.next⟩, alloc.fresh,
          fun s hs => alloc.live _ (h.live s hs), h.devices⟩
  | udpListen port onRead =>
      have alloc' := alloc.trans (Net.kmemAlloc_grows alloc.fresh)
      exact .ok ⟨⟨h.wf.unique, fun s hs => (h.wf.below s hs).trans_le alloc'.same.next⟩,
        alloc'.fresh, fun s hs => alloc'.live _ (h.live s hs), h.devices⟩
  | tcpSend addr data sz => exact h.onStream_post addr _
  | tcpClose addr => exact h.onStream_post addr _

/-- A step with a segment is `tcp_segment`, up to the map of devices. -/
theorem step_segment (h : k.HeapSound) {op : KernelOp σ} (hop : op.segment? = some g) :
    ∃ map, kernelStep k op = tcpSegment g.dev g.data g.sz g.srcIp
        { k with net := { k.net with ipDevices := map } } ∧
      Kernel.HeapSound { k with net := { k.net with ipDevices := map } } := by
  cases op with
  | segment g' =>
      cases hop
      exact ⟨k.net.ipDevices, rfl, h⟩
  | frame dev m =>
      obtain ⟨n, hn, map, ready, rfl⟩ := registerDevice_total h.devices dev
      refine ⟨map, ?_, h.grows (n := { k.net with ipDevices := map }) h.fresh (fun _ => ready)
        (Nat.le_refl _) (fun _ ha => ha) k.app⟩
      change ethernetPacket dev m k = _
      rw [ethernetPacket_of_segment hop, hn]
      rfl
  | _ => cases hop

/-- A step with a segment uses a freed stream exactly if the segment does. -/
theorem useAfterFree_iff (h : k.HeapSound) {op : KernelOp σ} (hop : op.segment? = some g) :
    kernelStep k op = .error .useAfterFree ↔ g.UsesFreed k := by
  obtain ⟨map, hstep, h₁⟩ := h.step_segment hop
  rw [hstep]
  refine ⟨fun herror => ?_, h₁.segment_useAfterFree⟩
  by_contra huse
  exact (h₁.segment_within huse).error_of_eq herror rfl

end Kernel.HeapSound

end

/-! ## Runs -/

/-- What holds in every state of a run. -/
theorem run_heapSound {junk : Nat → ByteMem} {app : σ} {ops : List (KernelOp σ)} {k : Kernel σ}
    (run : Transition.exec kernelStep (.boot junk app) ops = .ok k) :
    k.HeapSound ∧ k.Keeps NotFreed FreedLast := by
  have hrun : Transition.Run kernelStep (Allows fun _ _ => True) (.boot junk app) ops k :=
    .of_exec run fun k op => .of_forall (fun _ _ => trivial) k op
  refine ⟨hrun.invariant (fun k op k' h _ hstep => ?_) (boot_heapSound junk app),
    NotFreed.logInvariant.run hrun (boot_keeps junk app) (Nat.zero_le _)⟩
  exact h.step op k' hstep

/-- Whether the segment uses a freed stream can be computed. -/
theorem usesFreed_of_any {g : Segment} {k : Kernel σ} (hopens : g.opens k = false)
    (h : (g.find k.allStreams).any (fun s => decide (g.Reuses s)) = true) : g.UsesFreed k := by
  obtain ⟨s, hfind, hreuse⟩ := Option.any_eq_true _ _ |>.mp h
  exact ⟨s, hopens, hfind, of_decide_eq_true hreuse⟩

/-- The peer acknowledges the `Fin` in a segment with a byte of payload. -/
theorem freed_stream_used : ¬∀ (junk : Nat → ByteMem) (app : Unit) (ops : List (KernelOp Unit))
    (k : Kernel Unit), Transition.exec kernelStep (.boot junk app) ops = .ok k →
      ∀ g : Segment, tcpSegment g.dev g.data g.sz g.srcIp k ≠ .error .useAfterFree := by
  intro claim
  have hrun : Transition.check kernelStep (fun _ _ => True)
      (fun k => !(peerSegment TcpFlag.ack 5 3 3 [65]).opens k &&
        ((peerSegment TcpFlag.ack 5 3 3 [65]).find k.allStreams).any fun s =>
          decide ((peerSegment TcpFlag.ack 5 3 3 [65]).Reuses s))
      (Kernel.boot (fun _ _ => 0) ())
      [.tcpListen 80 fun app => (app, fun app _ _ _ => (app, [])),
        .segment (peerSegment TcpFlag.syn 5 1 0 []),
        .segment (peerSegment TcpFlag.ack 5 2 2 []),
        .segment (peerSegment (TcpFlag.fin ||| TcpFlag.ack) 5 2 2 [])] = true := by
    decide +kernel
  obtain ⟨k, run, huse⟩ := Transition.Run.of_check hrun
  rw [Bool.and_eq_true, Bool.not_eq_true'] at huse
  refine claim _ _ _ k run.exec_eq (peerSegment TcpFlag.ack 5 3 3 [65]) ?_
  exact (run_heapSound run.exec_eq).1.segment_useAfterFree (usesFreed_of_any huse.1 huse.2)

/-- In every state of every run nothing has happened on a stream after it was freed, and no
segment is served for a freed stream. A step with a segment uses a stream after it was
freed exactly if its acknowledgement frees it and payload, `Psh` or `Fin` follow. -/
theorem removed_stream_unused (junk : Nat → ByteMem) (app : σ) (ops : List (KernelOp σ))
    (k : Kernel σ) (run : Transition.exec kernelStep (.boot junk app) ops = .ok k) :
    (∀ a, FreedLast (own a k.log)) ∧
      (∀ a rest, .freed a rest ∈ k.log → ∀ (g : Segment) s k₁, g.Serves k s k₁ → s.addr ≠ a) ∧
      ∀ op g, op.segment? = some g →
        (kernelStep k op = .error .useAfterFree ↔
          ∃ s, g.opens k = false ∧ g.find k.allStreams = some s ∧
            (g.has TcpFlag.ack = true ∧ s.state = .lastAck) ∧
              (g.len ≠ 0 ∨ g.has TcpFlag.psh = true ∨ g.has TcpFlag.fin = true)) := by
  obtain ⟨heap, keeps⟩ := run_heapSound run
  refine ⟨keeps.own (fun _ _ h => h.freedLast) (fun _ h => h) .nil,
    fun a rest hfreed g s k₁ hserves haddr => ?_,
    fun op g hop => heap.useAfterFree_iff hop⟩
  have hlog : .freed a rest ∈ own a k.log := List.mem_filter.mpr ⟨hfreed, beq_self_eq_true a⟩
  have hold : ∀ t ∈ k.allStreams, t.addr ≠ a := by
    rintro t ht rfl
    cases keeps.streams t ht _ hlog
  obtain ⟨hsyn, hfind⟩ := hserves
  cases opened_of_eq hsyn with
  | kept n _ _ => exact hold s (List.mem_of_find?_eq_some hfind) haddr
  | opened l junk n _ _ _ _ =>
      cases (find_opened g _ _ _ _).symm.trans hfind
      have hbelow : a < k.net.next := keeps.bound _ hfreed
      have hnew : k.net.next + 1 = a := haddr
      omega

/-- A connection that both sides close; the last acknowledgement carries nothing. -/
theorem removed_stream_unused_run : ∃ k : Kernel Unit,
    Transition.exec kernelStep (.boot (fun _ _ => 0) ())
      [.tcpListen 80 fun app => (app, fun app _ _ _ => (app, [])),
        .segment (peerSegment TcpFlag.syn 5 1 0 []),
        .segment (peerSegment TcpFlag.ack 5 2 2 []),
        .segment (peerSegment (TcpFlag.fin ||| TcpFlag.ack) 5 2 2 []),
        .segment (peerSegment TcpFlag.ack 5 3 3 [])] = .ok k ∧
      (∃ e ∈ own 2 k.log, e.isFreed = true) ∧ FreedLast (own 2 k.log) := by
  have hrun : Transition.check kernelStep (fun _ _ => True)
      (fun k => (own 2 k.log).any TcpEvent.isFreed)
      (Kernel.boot (fun _ _ => 0) ())
      [.tcpListen 80 fun app => (app, fun app _ _ _ => (app, [])),
        .segment (peerSegment TcpFlag.syn 5 1 0 []),
        .segment (peerSegment TcpFlag.ack 5 2 2 []),
        .segment (peerSegment (TcpFlag.fin ||| TcpFlag.ack) 5 2 2 []),
        .segment (peerSegment TcpFlag.ack 5 3 3 [])] = true := by
    decide +kernel
  obtain ⟨k, run, hfreed⟩ := Transition.Run.of_check hrun
  exact ⟨k, run.exec_eq, List.any_eq_true.mp hfreed,
    (removed_stream_unused _ () _ k run.exec_eq).1 2⟩

end BadOs
