import BadOs.Net.System

/-!
# One stream per connection

`find` returns the first stream of a connection. A `Syn` puts a new stream at the head
of the list whether or not the connection has one already.
-/

namespace BadOs

variable {σ : Type}

/-- Local address and port, remote address and port. -/
abbrev Quad := BitVec 32 × BitVec 16 × BitVec 32 × BitVec 16

def Stream.quad (s : Stream σ) : Quad := (s.localAddr, s.localPort, s.remoteAddr, s.remotePort)

def Segment.quad (g : Segment) : Quad :=
  (g.dev.ip, ntos g.hdr.destPort, g.srcIp, ntos g.hdr.srcPort)

/-- No two streams have the same connection. -/
def Kernel.OnePerConnection (k : Kernel σ) : Prop := Keyed.Unique Stream.quad k.allStreams

/-- A segment that opens a stream names a connection that has none. -/
def FreshSyn (k : Kernel σ) (op : KernelOp σ) : Prop :=
  ∀ g, op.segment? = some g → g.opens k = true → g.find k.allStreams = none

instance (k : Kernel σ) (op : KernelOp σ) : Decidable (FreshSyn k op) :=
  inferInstanceAs (Decidable (∀ g ∈ op.segment?, g.opens k = true → _))

/-! ## Lookup -/

theorem Segment.isFor_iff (g : Segment) (s : Stream σ) : g.isFor s = true ↔ s.quad = g.quad := by
  simp only [Segment.isFor, Stream.isFor, Stream.quad, Segment.quad, Bool.and_eq_true, beq_iff_eq,
    Prod.mk.injEq, Segment.hdr, and_assoc, and_comm (a := s.remoteAddr = _)]

theorem Segment.find_eq_none_iff (g : Segment) (l : List (Stream σ)) :
    g.find l = none ↔ g.quad ∉ l.map Stream.quad := by
  rw [Segment.find, BadOs.find, List.find?_eq_none, List.mem_map]
  constructor
  · rintro h ⟨s, hs, hquad⟩
    exact h s hs ((g.isFor_iff s).mpr hquad)
  · intro h s hs hfor
    exact h ⟨s, hs, (g.isFor_iff s).mp hfor⟩

/-- A stream that is alone on its connection is the one that `find` returns. -/
theorem Kernel.OnePerConnection.find_eq {k : Kernel σ} (one : k.OnePerConnection) {g : Segment}
    {s : Stream σ} (hs : s ∈ k.allStreams) (hfor : g.isFor s = true) :
    g.find k.allStreams = some s := by
  cases hfind : g.find k.allStreams with
  | none =>
      exact absurd (List.mem_map.mpr ⟨s, hs, (g.isFor_iff s).mp hfor⟩)
        ((g.find_eq_none_iff _).mp hfind)
  | some t =>
      have ht : t ∈ k.allStreams := List.mem_of_find?_eq_some hfind
      have htfor : g.isFor t = true := List.find?_some hfind
      rw [Keyed.Unique.eq_of_key_eq one ht hs
        (((g.isFor_iff t).mp htfor).trans ((g.isFor_iff s).mp hfor).symm)]

/-- A new stream is found first. -/
theorem find_opened (g : Segment) (addr : Nat) (junk : ByteMem) (fn : TcpReadFn σ)
    (l : List (Stream σ)) :
    g.find (openedStream addr junk g.dev g.hdr g.srcIp fn :: l) =
      some (openedStream addr junk g.dev g.hdr g.srcIp fn) :=
  List.find?_cons_of_pos ((g.isFor_iff _).mpr rfl)

/-! ## Steps -/

theorem Stream.SameConn.quad {s s' : Stream σ} (h : s.SameConn s') : s'.quad = s.quad := by
  simp only [Stream.quad, h.localAddr, h.localPort, h.remoteAddr, h.remotePort]

/-- The segment that opens a stream does not remove it again. -/
theorem not_removed_of_synReceived {g : Segment} {s : Stream σ} {k : Kernel σ}
    (hstate : s.state = .synReceived) : ¬Removed g s k := by
  rintro (⟨_, hlast⟩ | ⟨hpushed, _, hwait⟩)
  · exact nomatch hstate.symm.trans hlast
  · obtain hsame | ⟨hfin, _⟩ := hpushed.state
    · have hreceived : (g.receive s).state ≠ .finWait2 := by
        unfold Segment.receive Segment.acknowledge
        split <;> split <;> simp [Stream.afterData, Stream.afterAck, hstate]
      exact hreceived (hsame.symm.trans hwait)
    · exact nomatch hfin.symm.trans hwait

section

variable {k k' : Kernel σ}

/-- Storing back a record of one of the streams does not show in the connections. -/
theorem Kernel.Wf.quads_replace (wf : k.Wf) {s s' : Stream σ} (hs : s ∈ k.allStreams)
    (hconn : s.SameConn s') :
    (Keyed.replace Stream.addr s' k.allStreams).map Stream.quad = k.allStreams.map Stream.quad :=
  wf.unique.map_replace hs hconn.addr hconn.quad

/-- A segment that opens no stream leaves the connections as they are, or drops one. -/
theorem quads_of_kept (wf : k.Wf) {g : Segment} (hopens : g.opens k = false)
    (h : tcpSegment g.dev g.data g.sz g.srcIp k = .ok k') :
    (k'.allStreams.map Stream.quad).Sublist (k.allStreams.map Stream.quad) := by
  obtain ⟨k₁, hopened, hrest⟩ := tcpSegment_cases h
  cases hopened with
  | opened l junk n hsyn hl _ _ =>
      exact nomatch (Segment.opens_of_listener hsyn hl).symm.trans hopens
  | kept n _ same =>
      obtain ⟨_, n, _, rfl⟩ | ⟨s, hs, hserve⟩ := hrest
      · exact .refl _
      · obtain ⟨_, _, ⟨s', hconn, _, hstreams⟩ | ⟨_, hstreams⟩⟩ := hserve.frame
        · rw [hstreams, wf.quads_replace (List.mem_of_find?_eq_some hs) hconn]
        · rw [hstreams]
          exact (Keyed.erase_sublist _ _).map _

/-- A segment that opens a stream adds its connection to the others. -/
theorem quads_of_opened (wf : k.Wf) {g : Segment} (hopens : g.opens k = true)
    (h : tcpSegment g.dev g.data g.sz g.srcIp k = .ok k') :
    k'.allStreams.map Stream.quad = g.quad :: k.allStreams.map Stream.quad := by
  obtain ⟨k₁, hopened, hrest⟩ := tcpSegment_cases h
  have wf₁ := hopened.wf wf
  cases hopened with
  | kept n hkept same => exact nomatch hopens.symm.trans hkept
  | opened l junk n _ _ _ _ =>
      obtain ⟨hnone, _⟩ | ⟨s, hs, hserve⟩ := hrest
      · exact nomatch (find_opened g _ _ _ _).symm.trans hnone
      · cases (find_opened g _ _ _ _).symm.trans hs
        obtain ⟨_, _, ⟨s', hconn, _, hstreams⟩ | ⟨hremoved, _⟩⟩ := hserve.frame
        · rw [hstreams]
          exact wf₁.quads_replace List.mem_cons_self hconn
        · exact absurd hremoved (not_removed_of_synReceived rfl)

/-- From a state with one stream per connection, a step keeps it so exactly when it opens
no second stream on a connection. -/
theorem Kernel.OnePerConnection.step_iff (one : k.OnePerConnection) (wf : k.Wf)
    {op : KernelOp σ} (h : kernelStep k op = .ok k') :
    k'.OnePerConnection ↔ FreshSyn k op := by
  obtain ⟨g, n, hop, hnext, h⟩ | ⟨hop, n, app, ports, listeners, _, rfl⟩ |
    ⟨hop, s, c, n, _, hs, _, rfl⟩ := kernelStep_cases h
  · have wfn : Kernel.Wf { k with net := n } :=
      ⟨wf.unique, fun s hs => (wf.below s hs).trans_le hnext.ge⟩
    by_cases hopens : g.opens k = true
    · have hquads := quads_of_opened wfn hopens h
      rw [Kernel.OnePerConnection, Keyed.Unique, hquads, List.nodup_cons]
      constructor
      · rintro ⟨hfresh, _⟩ g' hg' _
        cases hop.symm.trans hg'
        exact (g.find_eq_none_iff _).mpr hfresh
      · exact fun fresh => ⟨(g.find_eq_none_iff _).mp (fresh g hop hopens), one⟩
    · have hsub := quads_of_kept wfn (Bool.eq_false_iff.mpr hopens) h
      refine ⟨fun _ g' hg' hopens' => ?_, fun _ => List.Nodup.sublist hsub one⟩
      cases hop.symm.trans hg'
      exact absurd hopens' hopens
  · refine ⟨fun _ g' hg => ?_, fun _ => one⟩
    cases hop.symm.trans hg
  · refine ⟨fun _ g' hg => ?_, fun _ => ?_⟩
    · cases hop.symm.trans hg
    change ((Keyed.replace Stream.addr (s.afterCall c) k.allStreams).map Stream.quad).Nodup
    rw [wf.quads_replace hs (s.afterCall_sameConn c)]
    exact one

end

/-! ## Runs -/

/-- A retransmitted `Syn` opens a second stream on the connection. -/
theorem syn_twice : ∃ k : Kernel Unit,
    Transition.exec kernelStep (.boot (fun _ _ => 0) ())
      [.tcpListen 80 fun app => (app, fun app _ _ _ => (app, [])),
        .segment (peerSegment TcpFlag.syn 5 1 0 []),
        .segment (peerSegment TcpFlag.syn 5 1 0 [])] = .ok k ∧ ¬k.OnePerConnection := by
  have hrun : Transition.check kernelStep (fun _ _ => True)
      (fun k => !decide (k.allStreams.map Stream.quad).Nodup)
      (Kernel.boot (fun _ _ => 0) ())
      [.tcpListen 80 fun app => (app, fun app _ _ _ => (app, [])),
        .segment (peerSegment TcpFlag.syn 5 1 0 []),
        .segment (peerSegment TcpFlag.syn 5 1 0 [])] = true := by
    decide +kernel
  obtain ⟨k, run, hdup⟩ := Transition.Run.of_check hrun
  rw [Bool.not_eq_true', decide_eq_false_iff_not] at hdup
  exact ⟨k, run.exec_eq, hdup⟩

/-- Along a run in which no `Syn` opens a second stream on a connection, every connection
has one stream, and `find` returns it; the next step keeps it so exactly when it is no such
`Syn` either. -/
theorem run_onePerConnection (junk : Nat → ByteMem) (app : σ) (ops : List (KernelOp σ))
    (k : Kernel σ) (run : Transition.Run kernelStep FreshSyn (.boot junk app) ops k) :
    k.OnePerConnection ∧
      (∀ (g : Segment), ∀ s ∈ k.allStreams, g.isFor s = true → g.find k.allStreams = some s) ∧
      ∀ op k', kernelStep k op = .ok k' → (k'.OnePerConnection ↔ FreshSyn k op) := by
  obtain ⟨wf, one⟩ := run.invariant (I := fun k => k.Wf ∧ k.OnePerConnection)
    (fun _ _ _ h fresh hstep => ⟨h.1.step hstep, (h.2.step_iff h.1 hstep).mpr fresh⟩)
    ⟨boot_wf junk app, List.nodup_nil⟩
  exact ⟨one, fun _ _ hs hfor => one.find_eq hs hfor, fun _ _ hstep => one.step_iff wf hstep⟩

/-- Two peers, from the same port to the same port. -/
theorem run_onePerConnection_peers : ∃ k : Kernel Unit,
    Transition.Run kernelStep FreshSyn (.boot (fun _ _ => 0) ())
      [.tcpListen 80 fun app => (app, fun app _ _ _ => (app, [])),
        .segment (peerSegment TcpFlag.syn 5 1 0 []),
        .segment { peerSegment TcpFlag.syn 5 1 0 [] with srcIp := 0xC0A80309 },
        .segment (peerSegment TcpFlag.ack 5 2 2 [65]),
        .segment { peerSegment TcpFlag.ack 5 2 2 [66] with srcIp := 0xC0A80309 }] k ∧
      k.allStreams.map Stream.remoteAddr = [0xC0A80309, 0xC0A80301] ∧ k.OnePerConnection := by
  have hrun : Transition.check kernelStep FreshSyn
      (fun k => k.allStreams.map Stream.remoteAddr == [0xC0A80309, 0xC0A80301])
      (Kernel.boot (fun _ _ => 0) ())
      [.tcpListen 80 fun app => (app, fun app _ _ _ => (app, [])),
        .segment (peerSegment TcpFlag.syn 5 1 0 []),
        .segment { peerSegment TcpFlag.syn 5 1 0 [] with srcIp := 0xC0A80309 },
        .segment (peerSegment TcpFlag.ack 5 2 2 [65]),
        .segment { peerSegment TcpFlag.ack 5 2 2 [66] with srcIp := 0xC0A80309 }] = true := by
    decide +kernel
  obtain ⟨k, run, hpeers⟩ := Transition.Run.of_check hrun
  exact ⟨k, run, eq_of_beq hpeers, (run_onePerConnection _ () _ k run).1⟩

end BadOs
