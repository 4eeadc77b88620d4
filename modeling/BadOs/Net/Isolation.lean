import BadOs.Net.Links
import BadOs.Net.Removal

/-!
# Connections do not disturb each other

A segment changes streams of its own connection only: all others keep their records and
their order, and the pointers still go through the list to its end. This holds as far as
the call of `tcp_segment` stays within its objects.
-/

namespace BadOs

variable {σ : Type}

/-- The streams of other connections, in their order. -/
def Segment.others (g : Segment) (k : Kernel σ) : List (Stream σ) :=
  k.allStreams.filter fun s => s.quad ≠ g.quad

section

variable {g : Segment} {k k' k₁ : Kernel σ} {s : Stream σ}

/-- A new stream is one of the connection. -/
theorem Opened.others (h : Opened g k k') : g.others k' = g.others k := by
  cases h with
  | kept n _ _ => rfl
  | opened l junk n _ _ _ _ => exact List.filter_cons_of_neg (by simp; rfl)

/-- A stream of the connection is served: only its record is replaced, or unlinked. -/
theorem Served.others (wf : k.Wf) (hs : s ∈ k.allStreams) (hfor : g.isFor s = true)
    (h : Served g s k k') : g.others k' = g.others k := by
  have hquad := (g.isFor_iff s).mp hfor
  have hkey : ∀ t ∈ k.allStreams, t.addr = s.addr → decide (t.quad ≠ g.quad) = false := by
    intro t ht haddr
    rw [wf.unique.eq_of_key_eq ht hs haddr, hquad]
    simp
  unfold Segment.others
  obtain ⟨_, _, ⟨s', hconn, _, hstreams⟩ | ⟨_, hstreams⟩⟩ := h.frame
  · rw [hstreams]
    refine Keyed.filter_replace (fun t ht haddr => hkey t ht (haddr.trans hconn.addr)) ?_
    rw [hconn.quad, hquad]
    simp
  · rw [hstreams]
    exact Keyed.filter_erase hkey

theorem tcpSegment_others (wf : k.Wf) (h : tcpSegment g.dev g.data g.sz g.srcIp k = .ok k') :
    g.others k' = g.others k := by
  obtain ⟨k₁, hopened, ⟨_, n, _, rfl⟩ | ⟨s, hfind, hserved⟩⟩ := tcpSegment_cases h
  · exact hopened.others
  · have hfor : g.isFor s = true := List.find?_some hfind
    exact (hserved.others (hopened.wf wf) (List.mem_of_find?_eq_some hfind) hfor).trans
      hopened.others

/-- The streams of the list are at different addresses, all of them allocated. -/
theorem Links.Of.wf {l : Links} (linked : l.Of k) (fresh : k.net.Fresh) (live : k.LiveStreams) :
    k.Wf :=
  ⟨linked.unique, fun s hs => fresh _ (live s hs)⟩

end

/-! ## All lists -/

/-- A segment whose header is longer than the segment: its length wraps around, the space
check passes, and the copy runs over everything behind the buffer. -/
theorem neighbours_overwritten : ¬∀ (k : Kernel Unit) (l : Links), l.Of k → k.net.Fresh →
    k.LiveStreams → ∀ g : Segment,
      (∃ k' l', tcpSegmentAt g.dev g.data g.sz g.srcIp k l = .ok (k', l') ∧
        g.others k' = g.others k) ∨
      ∃ why, tcpSegmentAt g.dev g.data g.sz g.srcIp k l = .error (.panic why) := by
  intro claim
  let g : Segment := peerSegment TcpFlag.ack 15 42 2 []
  have hrun : Transition.check kernelStep (fun _ _ => True)
      (fun k => decide (k.allStreams.map Stream.addr = [2]) && !g.opens k &&
        (g.find k.allStreams).any fun s => decide (s.state = .established ∧ Overrun s g.len))
      (Kernel.boot (fun _ _ => 0) ())
      [.tcpListen 80 fun app => (app, fun app _ _ _ => (app, [])),
        .segment (peerSegment TcpFlag.syn 5 1 0 []),
        .segment (peerSegment TcpFlag.ack 5 2 2 (List.replicate 40 65))] = true := by
    decide +kernel
  obtain ⟨k, run, hpost⟩ := Transition.Run.of_check hrun
  obtain ⟨⟨haddr, hopens⟩, hfind⟩ :=
    (Bool.and_eq_true_iff.mp hpost).imp_left Bool.and_eq_true_iff.mp
  obtain ⟨s, hfind, hover⟩ := (Option.any_eq_true _ _).mp hfind
  obtain ⟨hstate, hover⟩ := of_decide_eq_true hover
  have heap := (run_heapSound run.exec_eq).1
  have linked : Links.Of ⟨2, fun _ => 0⟩ k := by
    rw [Links.Of, of_decide_eq_true haddr]
    exact ⟨rfl, by decide, rfl⟩
  have hsyn : g.has TcpFlag.syn = false := by decide +kernel
  have hserves : g.Serves k s k := ⟨if_neg (Bool.eq_false_iff.mp hsyn), hfind⟩
  have hlast : ¬(g.has TcpFlag.ack = true ∧ s.state = .lastAck) := by
    rw [hstate]
    exact fun h => nomatch h.2
  have hstep := tcpSegmentAt_lockstep heap.wf linked g.dev g.data g.sz g.srcIp
  have herror : ∀ e, tcpSegment g.dev g.data g.sz g.srcIp k = .error e → ¬e.IsPanic → False := by
    intro e he hpanic
    have hat := hstep.error_iff.mp he
    obtain ⟨k', l', hok, _⟩ | ⟨why, herr⟩ := claim k _ linked heap.fresh heap.live g
    · cases hat.symm.trans hok
    · cases hat.symm.trans herr
      exact hpanic trivial
  obtain ⟨he, _⟩ | he := segment_fault heap.fresh heap.live hserves (.inr ⟨hlast, .inl hover⟩)
  · exact herror _ he id
  · exact herror _ he id

/-- For every list of streams whose pointers go through it, and every segment: the call of
`tcp_segment` returns or panics, with the streams of other connections as they were, in
their order, in a list whose pointers go through it again, exactly if it is none of three
exceptions. -/
theorem connection_isolated (k : Kernel σ) (l : Links) (linked : l.Of k) (fresh : k.net.Fresh)
    (live : k.LiveStreams) (g : Segment) :
    ((∃ k' l', tcpSegmentAt g.dev g.data g.sz g.srcIp k l = .ok (k', l') ∧
          g.others k' = g.others k ∧ l'.Of k' ∧ (k'.allStreams.map Stream.addr).Nodup) ∨
        ∃ why, tcpSegmentAt g.dev g.data g.sz g.srcIp k l = .error (.panic why)) ↔
      ¬∃ s k₁, g.Serves k s k₁ ∧ g.Faults s k₁ := by
  have wf := linked.wf fresh live
  have hstep := tcpSegmentAt_lockstep wf linked g.dev g.data g.sz g.srcIp
  constructor
  · rintro hok ⟨s, k₁, hserves, hfault⟩
    obtain ⟨he, _⟩ | he := segment_fault fresh live hserves hfault <;>
      have hat := hstep.error_iff.mp he
    all_goals
      obtain ⟨k', l', hok, _⟩ | ⟨why, herr⟩ := hok
      · cases hat.symm.trans hok
      · cases hat.symm.trans herr
  · intro hno
    obtain ⟨k', hk', _⟩ | ⟨e, he, hpanic⟩ := segment_total_or_panic wf fresh live hno
    · refine .inl ?_
      rw [hk'] at hstep
      generalize tcpSegmentAt g.dev g.data g.sz g.srcIp k l = x at hstep
      obtain ⟨l', linked', rfl⟩ := hstep
      exact ⟨k', l', rfl, tcpSegment_others wf hk', linked', linked'.unique⟩
    · refine .inr ?_
      cases e with
      | panic why => exact ⟨why, hstep.error_iff.mp he⟩
      | _ => exact hpanic.elim

/-- Data on the second connection of the list, which the read function gets. -/
theorem connection_isolated_served : ∃ (k : Kernel Unit) (l : Links) (g : Segment),
    (g.find k.allStreams).map Stream.addr = some 2 ∧ (g.others k).length = 1 ∧
      ((∃ k' l', tcpSegmentAt g.dev g.data g.sz g.srcIp k l = .ok (k', l') ∧
          g.others k' = g.others k ∧ l'.Of k' ∧ (k'.allStreams.map Stream.addr).Nodup) ∨
        ∃ why, tcpSegmentAt g.dev g.data g.sz g.srcIp k l = .error (.panic why)) := by
  let g : Segment := peerSegment (TcpFlag.ack ||| TcpFlag.psh) 5 2 2 [65]
  have hrun : Transition.check kernelStep (fun _ _ => True)
      (fun k => decide (k.allStreams.map Stream.addr = [5, 2] ∧ (g.others k).length = 1) &&
        (g.find k.allStreams).any fun s => decide (s.addr = 2 ∧ ¬g.Reuses s ∧ ¬Overrun s g.len) &&
          ((g.receive s).reaction k).isEmpty)
      (Kernel.boot (fun _ _ => 0) ())
      [.tcpListen 80 fun app => (app, fun app _ _ _ => (app, [])),
        .segment (peerSegment TcpFlag.syn 5 1 0 []),
        .segment { peerSegment TcpFlag.syn 5 1 0 [] with srcIp := 0xC0A80309 },
        .segment (peerSegment TcpFlag.ack 5 2 2 []),
        .segment { peerSegment TcpFlag.ack 5 2 2 [66] with srcIp := 0xC0A80309 }] = true := by
    decide +kernel
  obtain ⟨k, run, hpost⟩ := Transition.Run.of_check hrun
  obtain ⟨hlist, hfind⟩ := Bool.and_eq_true_iff.mp hpost
  obtain ⟨haddrs, hothers⟩ := of_decide_eq_true hlist
  obtain ⟨s, hfind, hserved⟩ := (Option.any_eq_true _ _).mp hfind
  obtain ⟨hs, hempty⟩ := Bool.and_eq_true_iff.mp hserved
  obtain ⟨haddr, hreuses, hover⟩ := of_decide_eq_true hs
  have heap := (run_heapSound run.exec_eq).1
  have linked : Links.Of ⟨5, fun p => if p = 5 then 2 else 0⟩ k := by
    rw [Links.Of, haddrs]
    exact ⟨rfl, by decide, rfl, by decide, rfl⟩
  refine ⟨k, _, g, ?_, hothers,
    (connection_isolated k _ linked heap.fresh heap.live g).mpr ?_⟩
  · rw [hfind, Option.map_some, haddr]
  rintro ⟨s', k₁, ⟨hsyn, hserves⟩, hfault⟩
  have hflag : g.has TcpFlag.syn = false := by decide +kernel
  cases (if_neg (Bool.eq_false_iff.mp hflag)).symm.trans hsyn
  cases hfind.symm.trans hserves
  obtain hreuses' | ⟨_, hover' | ⟨_, hlarge⟩⟩ := hfault
  · exact hreuses hreuses'
  · exact hover hover'
  · rw [List.isEmpty_iff.mp hempty] at hlarge
    exact hlarge

end BadOs
