import BadOs.Net.Emission
import BadOs.Net.Removal

/-!
# Segments that nobody waits for

A segment of no stream is refused with a reset, and a `Syn` to a port without a listener once
more before that. The reset does not look at what it refuses: it goes out whatever the flags
are, its destination port is taken from the device's address, and it acknowledges nothing.
-/

namespace BadOs

variable {σ : Type}

/-- The sequence number behind a segment, where `Syn` and `Fin` count one each. -/
def Segment.seqEnd (g : Segment) : BitVec 32 :=
  ntol g.hdr.sequence + g.len + (if g.has TcpFlag.syn then 1 else 0) +
    (if g.has TcpFlag.fin then 1 else 0)

/-- A segment of no stream is refused as it should be: a reset is not answered, and anything
else by one reset to its sender, which acknowledges what has no acknowledgement itself. -/
def Segment.RefusedRight (g : Segment) (sent sent' : List (BitVec 32 × Segment)) : Prop :=
  (g.has TcpFlag.rst = true → sent' = sent) ∧
    (g.has TcpFlag.rst = false → ∃ r : Segment, sent' = sent ++ [(g.srcIp, r)] ∧
      r.has TcpFlag.rst = true ∧ r.srcIp = g.dev.ip ∧
      r.hdr.srcPort = g.hdr.destPort ∧ r.hdr.destPort = g.hdr.srcPort ∧
      (g.has TcpFlag.ack = false →
        r.hdr.flags = TcpFlag.rst ||| TcpFlag.ack ∧ ntol r.hdr.ack = g.seqEnd))

/-- When it is: a reset comes from an address that is not known, and anything else is no `Syn`,
comes from a known address and the port that the code takes from the address of the device, and
carries an acknowledgement or ends at zero. -/
def Segment.RefusesWell (g : Segment) (n : Net) : Prop :=
  (g.has TcpFlag.rst = true → n.macOf g.srcIp = none) ∧
    (g.has TcpFlag.rst = false → g.has TcpFlag.syn = false ∧ (n.macOf g.srcIp).isSome ∧
      (ntol g.dev.ip).setWidth 16 = ntos g.hdr.srcPort ∧
      (g.has TcpFlag.ack = false → g.seqEnd = 0))

section

variable {k : Kernel σ}

/-- One reset leaves, if the address of the sender is known. -/
theorem resetStream_segments (dev : NetDevice) (hdr : TcpHdr) (srcIp : BitVec 32)
    (k : Kernel σ) :
    (resetStream dev hdr srcIp k).Total fun k' => ∃ n r, k' = { k with net := n } ∧
      k.net.SameTables n ∧ Segment.Carries r dev (resetHdr dev hdr) [] ∧
      segmentsSent n = segmentsSent k.net ++
        if (k.net.macOf srcIp).isSome then [(srcIp, r)] else [] := by
  rw [resetStream_eq]
  refine .bind ((transmitSegment_empty _ _ _ _ _).and_post
    (transmitSegment_sameTables _ _ _ _ _ _)) ?_
  rintro n ⟨⟨r, hcarries, hsent⟩, same⟩
  exact .ok ⟨n, r, rfl, same, hcarries, hsent⟩

variable {k₁ : Kernel σ} {g : Segment}

/-- A `Syn` without a listener is refused. -/
theorem synPhase_refused (hsyn : g.has TcpFlag.syn = true) (hopens : g.opens k = false) :
    g.synPhase k = resetStream g.dev g.hdr g.srcIp k := by
  rw [Segment.opens, hsyn, Bool.true_and] at hopens
  have hnone : g.listener k = none :=
    Option.isNone_iff_eq_none.mp (Option.isSome_eq_false_iff.mp hopens)
  rw [Segment.synPhase, if_pos hsyn, BadOs.syn]
  rw [show k.allListeners.find? _ = none from hnone]

/-- The resets of a segment of no stream: one for its `Syn`, and one for itself. -/
theorem tcpSegment_refused (hnone : g.find k.allStreams = none) (hopens : g.opens k = false) :
    (tcpSegment g.dev g.data g.sz g.srcIp k).Total fun k' => ∃ r r' : Segment,
      r.Carries g.dev (resetHdr g.dev g.hdr) [] ∧ r'.Carries g.dev (resetHdr g.dev g.hdr) [] ∧
      segmentsSent k'.net = segmentsSent k.net ++
        if (k.net.macOf g.srcIp).isSome then
          if g.has TcpFlag.syn then [(g.srcIp, r), (g.srcIp, r')] else [(g.srcIp, r)]
        else [] := by
  obtain ⟨_, hfirst, n, r, rfl, same, hcarries, hsent⟩ := resetStream_segments g.dev g.hdr g.srcIp k
  by_cases hsyn : g.has TcpFlag.syn = true
  · have hphase := (synPhase_refused hsyn hopens).trans hfirst
    rw [tcpSegment_unfound hphase hnone]
    refine (resetStream_segments g.dev g.hdr g.srcIp { k with net := n }).mono ?_
    rintro _ ⟨n', r', rfl, _, hcarries', hsent'⟩
    refine ⟨r, r', hcarries, hcarries', ?_⟩
    have hmac := same.macOf g.srcIp
    change segmentsSent n' = _
    rw [hsent', hsyn]
    dsimp only
    rw [hsent, hmac]
    split
    · rw [List.append_assoc]
      rfl
    · rw [List.append_nil]
  · have hphase : g.synPhase k = .ok k := if_neg hsyn
    rw [tcpSegment_unfound hphase hnone]
    refine ⟨_, hfirst, r, r, hcarries, hcarries, ?_⟩
    rw [if_neg hsyn]
    exact hsent

/-- The fields of a reset. -/
theorem Segment.Carries.reset {r : Segment} (h : r.Carries g.dev (resetHdr g.dev g.hdr) []) :
    r.has TcpFlag.rst = true ∧ r.srcIp = g.dev.ip ∧ r.hdr.srcPort = g.hdr.destPort ∧
      r.hdr.destPort = ntos ((ntol g.dev.ip).setWidth 16) ∧
      r.hdr.flags = TcpFlag.rst ||| TcpFlag.ack ∧ ntol r.hdr.ack = 0 := by
  have hhdr := h.hdr
  have hflags : r.hdr.flags = TcpFlag.rst ||| TcpFlag.ack := by
    rw [hhdr]
    rfl
  refine ⟨?_, h.srcIp, ?_, ?_, hflags, ?_⟩
  · rw [Segment.has, TcpHdr.has, hflags]
    rfl
  · rw [hhdr]
    rfl
  · rw [hhdr]
    rfl
  · have hzero : ntol (0 : BitVec 32) = 0 := by decide
    rw [hhdr]
    exact hzero

/-- A segment of no stream is refused as it should be in exactly these cases. -/
theorem Segment.refusedRight_iff (hnone : g.find k.allStreams = none) (hopens : g.opens k = false) :
    (tcpSegment g.dev g.data g.sz g.srcIp k).Total fun k' =>
      (g.RefusedRight (segmentsSent k.net) (segmentsSent k'.net) ↔ g.RefusesWell k.net) := by
  refine (tcpSegment_refused hnone hopens).mono ?_
  rintro k' ⟨r, r', hcarries, -, hsent⟩
  obtain ⟨hrst, hsrc, hsrcPort, hdestPort, hflags, hack⟩ := hcarries.reset
  rw [hsent]
  refine and_congr ?_ ?_
  · apply imp_congr_right
    intro _
    cases k.net.macOf g.srcIp with
    | none => simp
    | some mac =>
        refine iff_of_false (fun h => ?_) (Option.some_ne_none mac)
        have hlength := congrArg List.length h
        rw [List.length_append] at hlength
        split at hlength
        · split at hlength <;> simp at hlength
        · next hknown => exact hknown rfl
  · apply imp_congr_right
    intro _
    by_cases hknown : (k.net.macOf g.srcIp).isSome = true
    · rw [if_pos hknown]
      by_cases hsyn : g.has TcpFlag.syn = true
      · rw [if_pos hsyn]
        refine iff_of_false (fun h => ?_) fun h => ?_
        · obtain ⟨x, hx, _⟩ := h
          exact absurd (congrArg List.length hx) (by simp)
        · exact absurd (h.1.symm.trans hsyn) (by decide)
      · rw [if_neg hsyn]
        constructor
        · rintro ⟨x, hx, _, _, _, hport, hanswer⟩
          obtain ⟨⟩ := List.append_cancel_left hx
          refine ⟨Bool.eq_false_iff.mpr hsyn, hknown, ?_, fun hnoack => ?_⟩
          · rw [← hport, hdestPort, ntos_ntos]
          · exact (hanswer hnoack).2.symm.trans hack
        · rintro ⟨_, _, hport, hend⟩
          refine ⟨r, rfl, hrst, hsrc, hsrcPort, ?_, fun hnoack => ⟨hflags, ?_⟩⟩
          · rw [hdestPort, hport, ntos_ntos]
          · rw [hack, hend hnoack]
    · rw [if_neg hknown, List.append_nil]
      refine iff_of_false (fun h => ?_) fun h => hknown h.2.1
      obtain ⟨x, hx, _⟩ := h
      exact absurd (congrArg List.length hx) (by simp)

end

/-! ## Runs -/

/-- A `Syn` of a known peer to a port without a listener is refused twice. -/
theorem reset_twice : ¬∀ (junk : Nat → ByteMem) (app : Unit) (ops : List (KernelOp Unit))
    (k : Kernel Unit), Transition.exec kernelStep (.boot junk app) ops = .ok k →
      ∀ g : Segment, g.find k.allStreams = none → g.opens k = false →
        (tcpSegment g.dev g.data g.sz g.srcIp k).Total fun k' =>
          g.RefusedRight (segmentsSent k.net) (segmentsSent k'.net) := by
  intro claim
  have hrun : Transition.check kernelStep (fun _ _ => True)
      (fun k => !(peerSegment TcpFlag.syn 5 1 0 []).opens k &&
        ((peerSegment TcpFlag.syn 5 1 0 []).find k.allStreams).isNone)
      (Kernel.boot (fun _ _ => 0) ()) [.frame ⟨0xC0A80302, 0⟩ peerArp] = true := by
    decide +kernel
  obtain ⟨k, run, hstate⟩ := Transition.Run.of_check hrun
  obtain ⟨hopens, hnone⟩ := Bool.and_eq_true_iff.mp hstate
  rw [Bool.not_eq_true'] at hopens
  have hnone := Option.isNone_iff_eq_none.mp hnone
  obtain ⟨k', hk', hright⟩ := claim _ _ _ k run.exec_eq _ hnone hopens
  obtain ⟨k₂, hk₂, hiff⟩ := Segment.refusedRight_iff hnone hopens
  cases hk'.symm.trans hk₂
  have hwell := (hiff.mp hright).2 (by decide +kernel)
  exact absurd hwell.1 (by decide +kernel)

/-- In every state of every run, a segment that has no stream and opens none is refused as it
should be exactly if it is a reset from an unknown address, or no `Syn`, from a known address,
from the port that the device's address stands for, and with an acknowledgement or an end of
sequence at zero. -/
theorem reset_generation_iff (junk : Nat → ByteMem) (app : σ) (ops : List (KernelOp σ))
    (k : Kernel σ) (run : Transition.exec kernelStep (.boot junk app) ops = .ok k)
    (op : KernelOp σ) (g : Segment) (hop : op.segment? = some g)
    (hnone : g.find k.allStreams = none) (hopens : g.opens k = false) :
    (kernelStep k op).Total fun k' =>
      (g.RefusedRight (segmentsSent k.net) (segmentsSent k'.net) ↔ g.RefusesWell k.net) := by
  obtain ⟨map, hstep, -⟩ := (run_heapSound run).1.step_segment hop
  rw [hstep]
  exact Segment.refusedRight_iff (k := { k with net := { k.net with ipDevices := map } })
    hnone hopens

/-- An acknowledgement from the port that the address of the device stands for. -/
def strayAck : Segment :=
  { peerSegment TcpFlag.ack 5 1 1 [] with
    data := TcpHdr.store ⟨ntos 43200, ntos 80, ntol 1, ntol 1, 0, 5, TcpFlag.ack, 0, 0⟩ 0
      fun _ => 0 }

theorem reset_generation_stray : ∃ k k' : Kernel Unit,
    Transition.exec kernelStep (.boot (fun _ _ => 0) ()) [.frame ⟨0xC0A80302, 0⟩ peerArp] = .ok k ∧
      kernelStep k (.segment strayAck) = .ok k' ∧
      strayAck.RefusedRight (segmentsSent k.net) (segmentsSent k'.net) := by
  have hrun : Transition.check kernelStep (fun _ _ => True)
      (fun k => !strayAck.opens k && ((strayAck.find k.allStreams).isNone &&
        (k.net.macOf strayAck.srcIp).isSome))
      (Kernel.boot (fun _ _ => 0) ()) [.frame ⟨0xC0A80302, 0⟩ peerArp] = true := by
    decide +kernel
  obtain ⟨k, run, hstate⟩ := Transition.Run.of_check hrun
  obtain ⟨hopens, hstate⟩ := Bool.and_eq_true_iff.mp hstate
  obtain ⟨hnone, hknown⟩ := Bool.and_eq_true_iff.mp hstate
  rw [Bool.not_eq_true'] at hopens
  have hnone := Option.isNone_iff_eq_none.mp hnone
  obtain ⟨k', hstep, hiff⟩ :=
    reset_generation_iff _ _ _ k run.exec_eq (.segment strayAck) strayAck rfl hnone hopens
  have hack : strayAck.has TcpFlag.ack = true := by decide +kernel
  have hwell : strayAck.RefusesWell k.net := by
    refine ⟨fun hrst => ?_, fun _ =>
      ⟨by decide +kernel, hknown, by decide +kernel, fun hnoack => ?_⟩⟩
    · exact absurd hrst (by decide +kernel)
    · exact absurd (hack.symm.trans hnoack) (by decide)
  exact ⟨k, k', run.exec_eq, hstep, hiff.mpr hwell⟩

end BadOs
