import BadOs.Net.Shutdown

/-!
# Sequence numbers of sent segments

Every segment of a stream continues the sequence space of the segments before it, as long
as nothing is sent behind the `Fin` that answers the peer's: `fin` does not count it.
-/

namespace BadOs

variable {σ : Type}

/-- The sequence space of a segment: its payload, and one each for `Syn` and `Fin`. -/
def TcpEvent.space : TcpEvent → Nat
  | .segment _ hdr payload =>
      (if hdr.has TcpFlag.syn then 1 else 0) + payload.length +
        if hdr.has TcpFlag.fin then 1 else 0
  | _ => 0

/-- The number in the header of a segment. -/
def TcpEvent.sequence? : TcpEvent → Option (BitVec 32)
  | .segment _ hdr _ => some hdr.sequence
  | _ => none

/-- The sequence space of the segments sent so far. -/
def space (evs : List TcpEvent) : Nat := (evs.map TcpEvent.space).sum

/-- The number in the header of every segment is the initial one plus the sequence space of
the segments before it. -/
def Contiguous (isn : BitVec 32) (evs : List TcpEvent) : Prop :=
  ∀ before a hdr payload after, evs = before ++ .segment a hdr payload :: after →
    hdr.sequence = ntol (isn + BitVec.ofNat 32 (space before))

/-- The number of the next segment is right, but for the `Fin` of `fin`. -/
structure InSequence (s : Stream σ) (evs : List TcpEvent) : Prop where
  sent : Contiguous 1 evs
  next : s.state ≠ .lastAck → s.localSeq = 1 + BitVec.ofNat 32 (space evs)

/-- The stream has not answered its peer's `Fin`. -/
def NotLastAck (s : Stream σ) (_ : AppCall) : Prop := s.state ≠ .lastAck

section

variable {s : Stream σ} {evs : List TcpEvent} {isn : BitVec 32}

@[simp] theorem space_append (evs evs' : List TcpEvent) :
    space (evs ++ evs') = space evs + space evs' := by
  rw [space, List.map_append, List.sum_append]
  rfl

theorem space_singleton (e : TcpEvent) : space [e] = e.space := List.sum_singleton

theorem Contiguous.nil : Contiguous isn [] := by
  intro before a hdr payload after h
  cases before <;> cases h

/-- An event behind the others. -/
theorem Contiguous.append (h : Contiguous isn evs) {e : TcpEvent}
    (he : ∀ a hdr payload, e = .segment a hdr payload →
      hdr.sequence = ntol (isn + BitVec.ofNat 32 (space evs))) : Contiguous isn (evs ++ [e]) := by
  intro before a hdr payload after heq
  obtain hnil | ⟨rest, e', hafter⟩ := List.eq_nil_or_concat' after
  · subst hnil
    obtain ⟨rfl, hlast⟩ := List.append_inj' heq rfl
    exact he a hdr payload (List.cons.inj hlast).1
  · rw [hafter, ← List.cons_append, ← List.append_assoc] at heq
    exact h before a hdr payload rest (List.append_inj' heq rfl).1

/-! ## The segments -/

theorem space_tcpSend (data : ByteMem) (sz : BitVec 16) :
    (s.callEvent (.tcpSend data sz)).space = sz.toNat := by
  have hsyn : (headerFromStream s TcpFlag.psh).1.has TcpFlag.syn = false :=
    headerFromStream_has s TcpFlag.psh (by decide)
  have hfin : (headerFromStream s TcpFlag.psh).1.has TcpFlag.fin = false :=
    headerFromStream_has s TcpFlag.psh (by decide)
  change (if (headerFromStream s TcpFlag.psh).1.has TcpFlag.syn then 1 else 0) + _ +
    (if (headerFromStream s TcpFlag.psh).1.has TcpFlag.fin then 1 else 0) = _
  rw [hsyn, hfin, ByteMem.length_slice]
  exact Nat.zero_add _

theorem space_tcpClose : (s.callEvent .tcpClose).space = 1 := by
  have hsyn : (headerFromStream s TcpFlag.fin).1.has TcpFlag.syn = false :=
    headerFromStream_has s TcpFlag.fin (by decide)
  have hfin : (headerFromStream s TcpFlag.fin).1.has TcpFlag.fin = true :=
    headerFromStream_has s TcpFlag.fin (by decide)
  change (if (headerFromStream s TcpFlag.fin).1.has TcpFlag.syn then 1 else 0) + _ +
    (if (headerFromStream s TcpFlag.fin).1.has TcpFlag.fin then 1 else 0) = _
  rw [hsyn, hfin]
  rfl

theorem space_synAckEvent : (synAckEvent s).space = 1 := by
  have hsyn : (headerFromStream { s with localSeq := 1 } (TcpFlag.syn ||| TcpFlag.ack)).1.has
      TcpFlag.syn = true := headerFromStream_has _ _ (by decide)
  have hfin : (headerFromStream { s with localSeq := 1 } (TcpFlag.syn ||| TcpFlag.ack)).1.has
      TcpFlag.fin = false := headerFromStream_has _ _ (by decide)
  rw [synAckEvent, TcpEvent.space, hsyn, hfin]
  rfl

namespace InSequence

/-- A segment with the next number. -/
theorem append (h : InSequence s evs) (hstate : s.state ≠ .lastAck) {e : TcpEvent}
    (he : ∀ a hdr payload, e = .segment a hdr payload → hdr.sequence = ntol s.localSeq) :
    Contiguous 1 (evs ++ [e]) := by
  refine h.sent.append fun a hdr payload heq => ?_
  rw [← h.next hstate]
  exact he a hdr payload heq

/-- An event that takes no number. -/
theorem other (h : InSequence s evs) {e : TcpEvent}
    (he : ∀ a hdr payload, e ≠ .segment a hdr payload)
    (hspace : e.space = 0) : InSequence s (evs ++ [e]) := by
  refine ⟨h.sent.append fun a hdr payload heq => absurd heq (he a hdr payload), fun hstate => ?_⟩
  rw [space_append, space_singleton, hspace]
  exact h.next hstate

theorem call {c : AppCall} (h : InSequence s evs) (hc : NotLastAck s c) :
    InSequence (s.afterCall c) (evs ++ [s.callEvent c]) := by
  have hnext := h.next hc
  cases c with
  | tcpSend data sz =>
      refine ⟨h.append hc ?_, fun _ => ?_⟩
      · rintro a hdr payload ⟨⟩
        rfl
      · change s.localSeq + sz.setWidth 32 = _
        rw [space_append, space_singleton, space_tcpSend, hnext, BitVec.ofNat_add,
          BitVec.add_assoc, BitVec.ofNat_toNat]
  | tcpClose =>
      refine ⟨h.append hc ?_, fun _ => ?_⟩
      · rintro a hdr payload ⟨⟩
        rfl
      · change s.localSeq + 1 = _
        rw [space_append, space_singleton, space_tcpClose, hnext, BitVec.ofNat_add,
          BitVec.add_assoc]
        rfl

theorem logInvariant : LogInvariant 0 NotLastAck (InSequence (σ := σ)) (Contiguous 1) where
  opened addr junk dev hdr srcIp fn _ := by
    refine ⟨?_, fun _ => ?_⟩
    · refine Contiguous.nil.append ?_
      rintro a hdr payload ⟨⟩
      rfl
    · rw [space_singleton, space_synAckEvent]
      rfl
  ack s evs hdr h hstate := ⟨h.sent, fun _ => h.next hstate⟩
  data s evs hdr data len h _ := ⟨h.sent, h.next⟩
  push s evs calls h hcalls := by
    refine push_of_calls (fun s evs h => ?_) (fun s evs c h hc => h.call hc)
      (fun s evs h => ⟨h.sent, h.next⟩) h hcalls
    exact h.other (fun _ _ _ heq => by cases heq) rfl
  call s evs c h hc := h.call hc
  fin s evs h hstate := by
    refine ⟨h.append (hstate ▸ by decide) ?_, fun hlast => absurd rfl hlast⟩
    rintro a hdr payload ⟨⟩
    rfl
  acked s evs h _ := by
    refine h.sent.append ?_
    rintro a hdr payload ⟨⟩
  closed s evs h hstate := by
    have hfin : Contiguous 1 (evs ++ [s.finEvent TcpFlag.ack]) := by
      refine h.append (hstate ▸ by decide) ?_
      rintro a hdr payload ⟨⟩
      rfl
    have hfreed := hfin.append (e := .freed s.addr s.buffered) (by rintro a hdr payload ⟨⟩)
    rw [List.append_assoc] at hfreed
    exact hfreed

end InSequence

end

/-! ## Runs -/

/-- The stream answers the peer's `Fin`, and the application sends a byte: it gets the
number of the `Fin`. -/
theorem fin_not_counted : ¬∀ (junk : Nat → ByteMem) (app : Unit) (ops : List (KernelOp Unit))
    (k : Kernel Unit), Transition.exec kernelStep (.boot junk app) ops = .ok k →
      ∀ a, Contiguous 1 (own a k.log) := by
  intro claim
  have hrun : Transition.check kernelStep (fun _ _ => True)
      (fun k => decide (space ((own 2 k.log).take 2) = 2 ∧
        (own 2 k.log)[2]?.bind TcpEvent.sequence? = some (ntol 2)))
      (Kernel.boot (fun _ _ => 0) ())
      [.tcpListen 80 fun app => (app, fun app _ _ _ => (app, [])),
        .segment (peerSegment TcpFlag.syn 5 1 0 []),
        .segment (peerSegment TcpFlag.ack 5 2 2 []),
        .segment (peerSegment (TcpFlag.fin ||| TcpFlag.ack) 5 2 2 []),
        .tcpSend 2 (fun _ => 65) 1] = true := by
    decide +kernel
  obtain ⟨k, run, hpost⟩ := Transition.Run.of_check hrun
  have hcontiguous := claim _ _ _ k run.exec_eq 2
  obtain ⟨hspace, hsequence⟩ := of_decide_eq_true hpost
  obtain ⟨e, he, hsequence⟩ := Option.bind_eq_some_iff.mp hsequence
  obtain ⟨hlt, he⟩ := List.getElem?_eq_some_iff.mp he
  have hsplit : own 2 k.log = (own 2 k.log).take 2 ++ e :: (own 2 k.log).drop 3 := by
    rw [← he, ← List.drop_eq_getElem_cons, List.take_append_drop]
  cases e with
  | segment a hdr payload =>
      have hthird := hcontiguous _ a hdr payload _ hsplit
      rw [Option.some.inj hsequence, hspace] at hthird
      exact absurd hthird (by decide)
  | read a chunk => cases hsequence
  | freed a rest => cases hsequence

/-- In every run in which nothing is sent on a stream in `LastAck`, every segment of a
stream continues the sequence space of those before it. -/
theorem sequence_contiguous (junk : Nat → ByteMem) (app : σ) (ops : List (KernelOp σ))
    (k : Kernel σ) (run : Transition.Run kernelStep (Allows NotLastAck) (.boot junk app) ops k) :
    ∀ a, Contiguous 1 (own a k.log) := by
  have hkeeps := InSequence.logInvariant.run run (boot_keeps junk app) (Nat.zero_le _)
  exact hkeeps.own (fun _ _ h => h.sent) (fun _ h => h) .nil

/-- The application sends a byte and closes the connection. -/
theorem sequence_contiguous_run : ∃ k : Kernel Unit,
    Transition.Run kernelStep (Allows NotLastAck) (.boot (fun _ _ => 0) ())
      [.tcpListen 80 fun app => (app, fun app _ _ _ => (app, [])),
        .segment (peerSegment TcpFlag.syn 5 1 0 []),
        .segment (peerSegment TcpFlag.ack 5 2 2 []),
        .tcpSend 2 (fun _ => 65) 1,
        .tcpClose 2] k ∧
      space (own 2 k.log) = 3 ∧ Contiguous 1 (own 2 k.log) := by
  have hrun : Transition.check kernelStep
      (fun k op => (∀ c ∈ op.call?, ∀ s ∈ k.allStreams, s.state ≠ .lastAck) ∧
        ∀ g ∈ op.segment?, g.has TcpFlag.psh = false)
      (fun k => space (own 2 k.log) == 3) (Kernel.boot (fun _ _ => 0) ())
      [.tcpListen 80 fun app => (app, fun app _ _ _ => (app, [])),
        .segment (peerSegment TcpFlag.syn 5 1 0 []),
        .segment (peerSegment TcpFlag.ack 5 2 2 []),
        .tcpSend 2 (fun _ => 65) 1,
        .tcpClose 2] = true := by
    decide +kernel
  obtain ⟨k, run, hspace⟩ := Transition.Run.of_check hrun
  have run : Transition.Run kernelStep (Allows NotLastAck) _ _ k := run.mono fun k op h => by
    refine ⟨fun s hs c hc => h.1 _ hc s hs, fun g hg hpsh => ?_, fun g hg hpsh => ?_⟩
    · cases (h.2 g hg).symm.trans hpsh
    · cases (h.2 g hg).symm.trans hpsh
  exact ⟨k, run, eq_of_beq hspace, sequence_contiguous _ () _ k run 2⟩

end BadOs
