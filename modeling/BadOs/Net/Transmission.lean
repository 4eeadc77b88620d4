import BadOs.Ne2k.Send
import BadOs.Net.Removal
import BadOs.Net.Resolution

/-!
# The kernel and the driver of its devices

The network layer hands a frame to `device->send` and is done with it. That function is
`ne2k_send`, which has objects of its own and leaves the work to a task. Here every frame goes
through it, and rounds of the task loop come between the steps of the kernel in any order.
-/

namespace BadOs

variable {σ : Type}

structure Machine (σ : Type) where
  kernel : Kernel σ
  driver : Driver

/-- The frames that were handed to a device in between. -/
def handedOver (n n' : Net) : List (NetDevice × SBuff) := n'.sent.drop n.sent.length

section

variable (iomem : NetDevice → BitVec 16)

/-- `ne2k_send` for a frame and the ports of its device. The driver has its own number for the
buffer, and counts its own reference only. -/
def Driver.transmit (d : Driver) (frame : NetDevice × SBuff) : Except Trap Driver :=
  ne2kSend (iomem frame.1) d.fresh
    (d.allocBuffer frame.2.currSize (frame.2.data.shift frame.2.head))

/-- What a frame is on the ports. -/
def framePorts (frame : NetDevice × SBuff) : List PortWrite :=
  sendPorts (iomem frame.1) frame.2.currSize (frame.2.data.shift frame.2.head)

namespace Machine

def boot (junk : Nat → ByteMem) (app : σ) : Machine σ := ⟨.boot junk app, .empty⟩

/-- The kernel does something, and the driver gets the frames. -/
def call (f : Kernel σ → Except Trap (Kernel σ)) (m : Machine σ) : Except Trap (Machine σ) := do
  let k ← f m.kernel
  let d ← Transition.exec (Driver.transmit iomem) m.driver (handedOver m.kernel.net k.net)
  return ⟨k, d⟩

/-- A round of `task_poll_for_work`. -/
def round (m : Machine σ) : Except Trap (Machine σ) := do
  let d ← sendStep m.driver .round
  return { m with driver := d }

/-- All rounds. -/
def poll (m : Machine σ) : Except Trap (Machine σ) := do
  let d ← taskPollForWork (m.driver.tasks.live.length + 1) m.driver
  return { m with driver := d }

end Machine

inductive MachineOp (σ : Type) where
  | call (op : KernelOp σ)
  | round

def MachineOp.call? : MachineOp σ → Option (KernelOp σ)
  | .call op => some op
  | .round => none

def machineStep (m : Machine σ) : MachineOp σ → Except Trap (Machine σ)
  | .call op => m.call iomem (kernelStep · op)
  | .round => m.round

end

/-! ## What was handed over -/

section

variable {frames : List (NetDevice × SBuff)} {n : Net}

theorem kmemFree_handed (h : frames <+: n.sent) (p : Nat) :
    (n.kmemFree p).Post (frames <+: ·.sent) := by
  unfold Net.kmemFree
  split
  · exact .ok h
  · exact .error

theorem releaseRef_handed (h : frames <+: n.sent) (s : SBuff) :
    (releaseRef s n).Post (frames <+: ·.sent) := by
  unfold releaseRef
  split
  · exact kmemFree_handed h s.addr
  · exact .ok h

theorem ethernetSbuffAlloc_handed (h : frames <+: n.sent) (size : BitVec 16) :
    (ethernetSbuffAlloc size n).Post (frames <+: ·.2.sent) := .bind_any fun _ => .ok h

theorem ipSbuffAlloc_handed (h : frames <+: n.sent) (size : BitVec 16) :
    (ipSbuffAlloc size n).Post (frames <+: ·.2.sent) :=
  .bind (ethernetSbuffAlloc_handed h _) fun _ h => .bind_any fun _ => .ok h

/-- One frame more. -/
theorem ethernetSend_handed (h : frames <+: n.sent) (s : SBuff) (proto : BitVec 16) (dest : Mac)
    (device : NetDevice) : (ethernetSend s proto dest device n).Post (frames <+: ·.sent) :=
  .bind_any fun _ => .bind_any fun _ => releaseRef_handed (h.trans (List.prefix_append _ _)) _

theorem reply_handed (h : frames <+: n.sent) (dev : NetDevice) (target : Mac) (ip : BitVec 32)
    (broadcast : Bool) : (reply dev target ip broadcast n).Post (frames <+: ·.sent) :=
  .bind_any fun _ => .bind_any fun _ =>
    .bind (ethernetSend_handed (n := n.kmemAlloc.2) h _ _ _ dev) fun _ h => releaseRef_handed h _

theorem arpLookup_handed (h : frames <+: n.sent) (dev : NetDevice) (ip : BitVec 32) :
    (arpLookup dev ip n).Post (frames <+: ·.2.sent) := by
  unfold arpLookup
  split
  · exact .ok h
  · refine .bind (.bind (ethernetSbuffAlloc_handed h _) fun r h => .bind_any fun buf => ?_)
      fun n' h => .ok h
    exact .bind (ethernetSend_handed h _ _ _ dev) fun _ h => releaseRef_handed h _

theorem arpPacket_handed (h : frames <+: n.sent) (dev : NetDevice) (data : ByteMem) :
    (arpPacket dev data n).Post (frames <+: ·.sent) := by
  dsimp only [arpPacket]
  split
  · exact .ok h
  · split
    · exact reply_handed h dev _ _ false
    · intro n' hstore
      rw [(arpStore_eq hstore).2]
      exact h

theorem ipSend_handed (h : frames <+: n.sent) (s : SBuff) (proto : BitVec 8) (dest : BitVec 32)
    (device : NetDevice) : (ipSend s proto dest device n).Post (frames <+: ·.2.sent) := by
  refine .bind_any fun _ => .bind_any fun s => .bind (arpLookup_handed h device dest) ?_
  rintro ⟨mac, n₁⟩ h
  cases mac with
  | some mac => exact .bind (ethernetSend_handed h s _ mac device) fun n₂ h => .ok h
  | none => exact .ok h

theorem icmpSegment_handed (h : frames <+: n.sent) (sender : BitVec 32) (dev : NetDevice)
    (data : ByteMem) (len : BitVec 16) :
    (icmpSegment sender dev data len n).Post (frames <+: ·.sent) := by
  dsimp only [icmpSegment]
  split
  · exact .ok h
  · split
    · refine .bind (ipSbuffAlloc_handed h len) fun r h => .bind_any fun buf => ?_
      exact .bind (ipSend_handed h buf 1 sender dev) fun r h => releaseRef_handed h _
    · exact .ok h

theorem udpSend_handed (h : frames <+: n.sent) (quad : UdpQuad) (data : ByteMem)
    (size : BitVec 32) : (udpSend quad data size n).Post (frames <+: ·.2.sent) := by
  refine .bind (Q := (frames <+: ·.2.sent)) ?_ fun r h => ?_
  · exact .bind (ipSbuffAlloc_handed h _) fun r h => .bind_any fun sb => .ok h
  refine .bind_any fun sb => .bind_any fun dev => ?_
  cases dev with
  | none => exact .ok h
  | some dev => exact .bind_any fun sb => .bind_any fun sb => ipSend_handed h sb 17 _ dev

theorem udpCalls_handed (h : frames <+: n.sent) (calls : List UdpCall) :
    (udpCalls calls n).Post (frames <+: ·.sent) := by
  induction calls generalizing n with
  | nil => exact .ok h
  | cons c calls ih => exact .bind (udpSend_handed h c.quad c.data c.size) fun r h => ih h

theorem sendSegment_handed (h : frames <+: n.sent) (sb : SBuff) (hdr : TcpHdr) (data : ByteMem)
    (sz : BitVec 16) (dest : BitVec 32) (dev : NetDevice) :
    (sendSegment sb hdr data sz dest dev n).Post (frames <+: ·.sent) :=
  .bind_any fun _ => .bind_any fun _ => .bind_any fun sb =>
    .bind (ipSend_handed h sb 6 dest dev) fun _ h => .ok h

theorem transmitSegment_handed (h : frames <+: n.sent) (hdr : TcpHdr) (data : ByteMem)
    (sz : BitVec 16) (dest : BitVec 32) (dev : NetDevice) :
    (transmitSegment hdr data sz dest dev n).Post (frames <+: ·.sent) :=
  .bind (ipSbuffAlloc_handed h _) fun r h => sendSegment_handed h r.1 hdr data sz dest dev

end

section

variable {frames : List (NetDevice × SBuff)} {k : Kernel σ}

@[simp] theorem putStream_net (k : Kernel σ) (p : Option (Stream σ)) :
    (k.putStream p).net = k.net := by
  cases p <;> rfl

theorem resetStream_handed (h : frames <+: k.net.sent) (dev : NetDevice) (hdr : TcpHdr)
    (srcIp : BitVec 32) : (resetStream dev hdr srcIp k).Post (frames <+: ·.net.sent) := by
  rw [resetStream_eq]
  exact .bind (transmitSegment_handed h _ _ _ _ dev) fun n h => .ok h

theorem syn_handed (h : frames <+: k.net.sent) (dev : NetDevice) (hdr : TcpHdr)
    (srcIp : BitVec 32) : (syn dev hdr srcIp k).Post (frames <+: ·.net.sent) := by
  unfold syn
  split
  · exact resetStream_handed h dev hdr srcIp
  · refine .bind (ipSbuffAlloc_handed h _) fun r h => ?_
    exact .bind (sendSegment_handed (n := r.2.kmemAlloc.2) h r.1 _ _ _ _ _) fun n h => .ok h

theorem appCalls_handed (h : frames <+: k.net.sent) (s : Stream σ) (calls : List AppCall) :
    (appCalls s calls k).Post (frames <+: ·.2.net.sent) := by
  induction calls generalizing s k with
  | nil => exact .ok h
  | cons c calls ih =>
      rw [appCalls_cons]
      exact .bind (transmitSegment_handed h _ _ _ _ _) fun n h => ih h _

theorem removeStream_handed (h : frames <+: k.net.sent) (s : Stream σ) :
    (removeStream s k).Post (frames <+: ·.net.sent) :=
  .bind (kmemFree_handed h s.addr) fun _ h => .ok h

theorem acked_handed (h : frames <+: k.net.sent) (s : Stream σ) (hdr : TcpHdr) :
    (acked s hdr k).Post (frames <+: ·.2.net.sent) := by
  rw [acked_eq]
  split
  · exact .bind (removeStream_handed h _) fun k h => .ok h
  · exact .ok h

theorem pushit_handed (h : frames <+: k.net.sent) (p : Option (Stream σ)) :
    (pushit p k).Post (frames <+: ·.2.net.sent) := by
  refine .bind_any fun s => .bind (Q := (frames <+: ·.2.net.sent)) ?_ fun _ h => .ok h
  exact appCalls_handed (by exact h) s _

theorem fin_handed (h : frames <+: k.net.sent) (dev : NetDevice) (p : Option (Stream σ)) :
    (fin dev p k).Post (frames <+: ·.2.net.sent) := by
  cases p with
  | none => exact .error
  | some s =>
      by_cases hwait : s.state = .finWait2
      · rw [fin_finWait2 s k dev hwait]
        refine .bind (transmitSegment_handed h _ _ _ _ _) fun n h => ?_
        exact .bind (removeStream_handed h _) fun k h => .ok h
      · by_cases hest : s.state = .established
        · rw [fin_established s k dev hest]
          exact .bind (transmitSegment_handed h _ _ _ _ _) fun n h => .ok h
        · rw [fin_other s k dev hwait hest]
          exact .ok h

theorem serve_handed (h : frames <+: k.net.sent) (dev : NetDevice) (data : ByteMem)
    (sz : BitVec 32) (s : Stream σ) :
    (serve dev data sz s k).Post (frames <+: ·.net.sent) := by
  refine .bind (Q := (frames <+: ·.2.net.sent)) ?_ fun r h => .bind_any fun p => ?_
  · split
    · exact acked_handed h s _
    · exact .ok h
  refine .bind (Q := (frames <+: ·.2.net.sent)) ?_ fun r h => ?_
  · split
    · exact pushit_handed h p
    · exact .ok h
  refine .bind (Q := (frames <+: ·.2.net.sent)) ?_ fun r h => .ok ?_
  · split
    · exact fin_handed h dev _
    · exact .ok h
  rw [putStream_net]
  exact h

theorem tcpSegment_handed (h : frames <+: k.net.sent) (dev : NetDevice) (data : ByteMem)
    (sz srcIp : BitVec 32) : (tcpSegment dev data sz srcIp k).Post (frames <+: ·.net.sent) := by
  refine .bind (Q := (frames <+: ·.net.sent)) ?_ fun k h => ?_
  · split
    · exact syn_handed h dev _ srcIp
    · exact .ok h
  · split
    · exact resetStream_handed h dev _ srcIp
    · exact serve_handed h dev data sz _

theorem udpNotify_handed (h : frames <+: k.net.sent) (dev : NetDevice) (data : ByteMem)
    (srcIp : BitVec 32) (ports : List (UdpListeningPort σ)) :
    (udpNotify dev data srcIp ports k).Post (frames <+: ·.net.sent) := by
  induction ports generalizing k with
  | nil => exact .ok h
  | cons p ports ih =>
      simp only [udpNotify]
      split
      · exact .bind (udpCalls_handed h _) fun n h => ih h
      · exact ih h

theorem ethernetPacket_handed (h : frames <+: k.net.sent) (dev : NetDevice) (m : ByteMem) :
    (ethernetPacket dev m k).Post (frames <+: ·.net.sent) := by
  dsimp only [ethernetPacket]
  split
  · refine .bind (Q := (frames <+: ·.sent)) (.bind_any fun devices => .ok h) fun n h => ?_
    dsimp only
    split
    · exact .bind (icmpSegment_handed h _ dev _ _) fun n h => .ok h
    · split
      · exact tcpSegment_handed h dev _ _ _
      · split
        · exact udpNotify_handed h dev _ _ _
        · exact .ok h
  · split
    · exact .bind (arpPacket_handed h dev _) fun n h => .ok h
    · exact .ok h

theorem onStream_handed (h : frames <+: k.net.sent) (addr : Nat) (call : AppCall) :
    (onStream addr call k).Post (frames <+: ·.net.sent) := by
  unfold onStream
  split
  · exact .error
  · refine .bind (appCalls_handed h _ _) fun r h => .ok ?_
    rw [putStream_net]
    exact h

/-- No step takes a frame back. -/
theorem kernelStep_handed (h : frames <+: k.net.sent) (op : KernelOp σ) :
    (kernelStep k op).Post (frames <+: ·.net.sent) := by
  cases op with
  | frame dev m => exact ethernetPacket_handed h dev m
  | segment g => exact tcpSegment_handed h g.dev g.data g.sz g.srcIp
  | tcpListen port accept =>
      refine .ok ?_
      unfold tcpListen
      split
      · exact h
      · exact h
  | udpListen port onRead => exact .ok h
  | tcpSend addr data sz => exact onStream_handed h addr _
  | tcpClose addr => exact onStream_handed h addr _

end

/-! ## The driver -/

/-- These frames are queued behind the others, each with a new record. -/
structure Driver.Transmits (iomem : NetDevice → BitVec 16) (d : Driver)
    (frames : List (NetDevice × SBuff)) (d' : Driver) : Prop where
  sound : ∃ pending, d'.Sound pending
  held : d'.held = d.held
  fresh : d.fresh ≤ d'.fresh
  sends : ∃ new, d'.liveSends = new ++ d.liveSends ∧ new.length = frames.length ∧
    ∀ p ∈ new, d.fresh ≤ p
  frames : d'.handed.flatMap d'.frame =
    d.handed.flatMap d.frame ++ frames.flatMap (framePorts iomem)

namespace Driver.Sound

variable {iomem : NetDevice → BitVec 16} {d : Driver} {pending : List PendingTask}

theorem transmit (h : d.Sound pending) (frame : NetDevice × SBuff) :
    (d.transmit iomem frame).Total (d.Transmits iomem [frame]) := by
  have halloc := h.alloc frame.2.currSize (frame.2.data.shift frame.2.head)
  have hzero : ((d.allocBuffer frame.2.currSize (frame.2.data.shift frame.2.head)).buffs
      d.fresh).refs = 0 := by simp [allocBuffer]
  obtain ⟨d', hsend⟩ := halloc.send_returns (iomem frame.1) List.mem_cons_self
  have records := ne2kSend_post _ _ _ d' hsend
  refine ⟨d', hsend, ⟨_, halloc.send _ ?_ d' hsend⟩, records.held, ?_, ⟨[d.fresh + 1], ?_, rfl, ?_⟩,
    ?_⟩
  · rw [hzero]
    decide
  · rw [records.fresh]
    exact Nat.le_add_right _ 2
  · exact records.liveSends
  · exact List.forall_mem_singleton.mpr (Nat.le_succ _)
  · have hold := List.flatMap_congr (l := d.handed) fun f hf =>
      d.allocBuffer_frame frame.2.currSize (frame.2.data.shift frame.2.head) (h.below.2.2 f hf).ne
    rw [records.handed, records.frame, List.flatMap_append, List.flatMap_singleton,
      allocBuffer_frame_new, List.flatMap_singleton]
    exact congrArg (· ++ _) hold

theorem transmitAll (h : d.Sound pending) (frames : List (NetDevice × SBuff)) :
    (Transition.exec (Driver.transmit iomem) d frames).Total (d.Transmits iomem frames) := by
  induction frames generalizing d pending with
  | nil =>
      exact .ok ⟨⟨pending, h⟩, rfl, Nat.le_refl _, ⟨[], rfl, rfl, nofun⟩, (List.append_nil _).symm⟩
  | cons frame frames ih =>
      refine .bind (h.transmit frame) fun d₁ h₁ => ?_
      obtain ⟨pending₁, sound₁⟩ := h₁.sound
      obtain ⟨new₁, hsends₁, hlength₁, hfresh₁⟩ := h₁.sends
      refine (ih sound₁).mono fun d₂ h₂ => ?_
      obtain ⟨new₂, hsends₂, hlength₂, hfresh₂⟩ := h₂.sends
      refine ⟨h₂.sound, h₂.held.trans h₁.held, h₁.fresh.trans h₂.fresh,
        ⟨new₂ ++ new₁, ?_, ?_, ?_⟩, ?_⟩
      · rw [hsends₂, hsends₁, List.append_assoc]
      · rw [List.length_append, hlength₂, hlength₁]
        rfl
      · exact List.forall_mem_append.mpr ⟨fun p hp => h₁.fresh.trans (hfresh₂ p hp), hfresh₁⟩
      · rw [h₂.frames, h₁.frames, List.append_assoc, ← List.flatMap_append]
        rfl

end Driver.Sound

/-! ## The whole -/

/-- The driver was given what the kernel has handed over. -/
structure Machine.Sound (iomem : NetDevice → BitVec 16) (m : Machine σ) : Prop where
  driver : ∃ pending, m.driver.Sound pending
  held : m.driver.held = 0
  length : m.driver.liveSends.length = m.kernel.net.sent.length
  frames : m.driver.handed.flatMap m.driver.frame = m.kernel.net.sent.flatMap (framePorts iomem)

section

variable {iomem : NetDevice → BitVec 16} {m m' : Machine σ} {junk : Nat → ByteMem} {app : σ}

theorem boot_machineSound (junk : Nat → ByteMem) (app : σ) :
    (Machine.boot junk app).Sound iomem := ⟨⟨[], .empty⟩, rfl, rfl, rfl⟩

namespace Machine.Sound

/-- The driver takes all that it is given. -/
theorem call_transmits (h : m.Sound iomem) {f : Kernel σ → Except Trap (Kernel σ)} {k : Kernel σ}
    (hf : f m.kernel = .ok k) : (m.call iomem f).Total fun m' => m'.kernel = k ∧
      m.driver.Transmits iomem (handedOver m.kernel.net k.net) m'.driver := by
  obtain ⟨pending, sound⟩ := h.driver
  refine .bind ⟨k, hf, rfl⟩ ?_
  rintro _ rfl
  exact .bind (sound.transmitAll _) fun d hd => .ok ⟨rfl, hd⟩

theorem transmits (h : m.Sound iomem) {frames : List (NetDevice × SBuff)}
    (ht : m.driver.Transmits iomem frames m'.driver)
    (hsent : m'.kernel.net.sent = m.kernel.net.sent ++ frames) : m'.Sound iomem where
  driver := ht.sound
  held := ht.held.trans h.held
  length := by
    obtain ⟨new, hsends, hlength, _⟩ := ht.sends
    rw [hsends, hsent, List.length_append, List.length_append, hlength, h.length, Nat.add_comm]
  frames := by
    rw [ht.frames, h.frames, hsent, List.flatMap_append]

/-- A step of the kernel is one of the whole. -/
theorem call (h : m.Sound iomem) {op : KernelOp σ} {k : Kernel σ}
    (hk : kernelStep m.kernel op = .ok k) :
    (machineStep iomem m (.call op)).Total fun m' => m'.kernel = k ∧ m'.Sound iomem := by
  refine (h.call_transmits (f := (kernelStep · op)) hk).mono ?_
  rintro m' ⟨rfl, ht⟩
  obtain ⟨rest, hrest⟩ := kernelStep_handed (List.prefix_refl _) op _ hk
  refine ⟨rfl, h.transmits ht ?_⟩
  rw [handedOver, ← hrest, List.drop_left]

theorem round (h : m.Sound iomem) :
    m.round.Total fun m' => m'.kernel = m.kernel ∧ m'.Sound iomem := by
  obtain ⟨pending, sound⟩ := h.driver
  refine .bind sound.round_returns fun d ⟨sound', same⟩ => .ok ⟨rfl, sound', ?_, ?_, ?_⟩
  · exact same.held.trans h.held
  · exact (congrArg List.length same.liveSends).trans h.length
  · dsimp only
    rw [same.handed, same.frame, h.frames]

end Machine.Sound

/-- The loop ends with an empty queue. -/
theorem Driver.Sound.machinePoll {pending : List PendingTask} (h : m.driver.Sound pending) :
    m.poll.Total fun m' => m'.kernel = m.kernel ∧ m'.driver.Sound [] ∧
      m.driver.SameSends m'.driver :=
  .bind ((h.poll (Nat.lt_succ_of_le h.length_le)).and_post (taskPollForWork_sameSends _ _))
    fun _ ⟨idle, same⟩ => .ok ⟨rfl, idle, same⟩

theorem machineStep_call {op : KernelOp σ} (h : machineStep iomem m (.call op) = .ok m') :
    kernelStep m.kernel op = .ok m'.kernel := by
  obtain ⟨k, hk, hcall⟩ := Except.bind_eq_ok.mp h
  obtain ⟨d, _, hd⟩ := Except.bind_eq_ok.mp hcall
  cases hd
  exact hk

theorem machine_sound {ops : List (MachineOp σ)}
    (run : Transition.exec (machineStep iomem) (.boot junk app) ops = .ok m) :
    m.Sound iomem := by
  have hrun : Transition.Run (machineStep iomem) (fun _ _ => True) (.boot junk app) ops m :=
    .of_exec run fun _ _ => trivial
  refine hrun.invariant (fun m op m' h _ hstep => ?_) (boot_machineSound junk app)
  cases op with
  | call op => exact ((h.call (machineStep_call hstep)).post m' hstep).2
  | round => exact (h.round.post m' hstep).2

/-- The runs of the whole are those of the kernel, with rounds of the task loop anywhere. -/
theorem machine_run {ops : List (MachineOp σ)} (h : m.Sound iomem) {k : Kernel σ} :
    Transition.exec kernelStep m.kernel (ops.filterMap MachineOp.call?) = .ok k ↔
      ∃ d, Transition.exec (machineStep iomem) m ops = .ok ⟨k, d⟩ := by
  induction ops generalizing m with
  | nil =>
      constructor
      · rintro ⟨⟩
        exact ⟨m.driver, rfl⟩
      · rintro ⟨d, hd⟩
        exact congrArg (Except.map Machine.kernel) hd
  | cons op ops ih =>
      cases op with
      | call op =>
          constructor
          · intro hrun
            obtain ⟨k₁, hk₁, hrest⟩ := Except.bind_eq_ok.mp hrun
            obtain ⟨m₁, hm₁, rfl, h₁⟩ := h.call hk₁
            rw [Transition.exec_cons hm₁]
            exact (ih h₁).mp hrest
          · rintro ⟨d, hrun⟩
            obtain ⟨m₁, hm₁, hrest⟩ := Except.bind_eq_ok.mp hrun
            have hk₁ := machineStep_call hm₁
            obtain ⟨_, h₁⟩ := (h.call hk₁).post m₁ hm₁
            exact Except.bind_eq_ok.mpr ⟨m₁.kernel, hk₁, (ih h₁).mpr ⟨d, hrest⟩⟩
      | round =>
          obtain ⟨m₁, hm₁, hkernel, h₁⟩ := h.round
          rw [Transition.exec_cons (l := MachineOp.round) hm₁, ← ih h₁, hkernel]
          rfl

/-- What `deviceSend` says of the devices the driver does. When the task queue has been worked
off after any run, each frame has gone to the ports once, in order, and its task and its buffer
are freed; its `PendingSend` stays. -/
theorem machine_transmits {ops : List (MachineOp σ)}
    (run : Transition.exec (machineStep iomem) (.boot junk app) ops = .ok m) :
    m.poll.Total fun m' => m'.driver.ports = m.kernel.net.sent.flatMap (framePorts iomem) ∧
      m'.driver.tasks.live = [] ∧ (∀ f ∈ m'.driver.handed, f.2 ∉ m'.driver.liveBuffs) ∧
      m'.driver.liveSends.length = m.kernel.net.sent.length := by
  have h := machine_sound run
  obtain ⟨pending, sound⟩ := h.driver
  refine sound.machinePoll.mono fun m' ⟨hkernel, idle, same⟩ =>
    ⟨?_, ?_, fun f hf hlive => ?_, ?_⟩
  · have hports := idle.sent
    rw [List.flatMap_nil, List.append_nil] at hports
    rw [hports, same.handed, same.frame, h.frames]
  · exact List.eq_nil_iff_forall_not_mem.mpr fun t ht => nomatch idle.tasks t ht
  · have hmem := idle.handed f hf hlive
    rw [Driver.refs, same.held, h.held] at hmem
    exact Multiset.notMem_zero _ hmem
  · rw [same.liveSends, h.length]

end

end BadOs
