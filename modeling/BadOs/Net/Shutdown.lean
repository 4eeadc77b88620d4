import Mathlib.Logic.Relation
import BadOs.Net.History
import BadOs.Net.Services

/-!
# Nothing after the `Fin`

A stream that has sent its `Fin` sends no more data and no second `Fin`, and its state
only moves forward, as long as the application makes no call on it then. The stack does
not check this: `tcp_send` and `tcp_close` do not look at the state.
-/

namespace BadOs

variable {σ : Type}

/-- A segment with `Fin` was sent. -/
def TcpEvent.isFin : TcpEvent → Bool
  | .segment _ hdr _ => hdr.has TcpFlag.fin
  | _ => false

/-- A segment with payload or with `Fin` was sent. -/
def TcpEvent.carries : TcpEvent → Bool
  | .segment _ hdr payload => !payload.isEmpty || hdr.has TcpFlag.fin
  | _ => false

/-- No segment after one with `Fin` carries anything. -/
def NothingAfterFin (evs : List TcpEvent) : Prop :=
  evs.Pairwise fun e e' => e.isFin = true → e'.carries = false

instance (evs : List TcpEvent) : Decidable (NothingAfterFin evs) :=
  inferInstanceAs (Decidable (evs.Pairwise _))

/-- The ways in which the state of a stream moves on. -/
inductive Advance : TcpState → TcpState → Prop where
  | acked : Advance .synReceived .established
  | closed : Advance .established .finWait1
  | finAcked : Advance .finWait1 .finWait2
  | finished : Advance .established .lastAck

/-- The order of the states. -/
abbrev Forward : TcpState → TcpState → Prop := Relation.ReflTransGen Advance

/-- The call is made before the stream has sent its `Fin`, or sends nothing. -/
def BeforeFin (s : Stream σ) (c : AppCall) : Prop :=
  (s.state = .synReceived ∨ s.state = .established) ∨ ∃ data, c = .tcpSend data 0

/-! ## Headers -/

theorem headerFromStream_has (s : Stream σ) (flags : BitVec 8) {flag : BitVec 8}
    (hflag : TcpFlag.ack &&& flag = 0#8) :
    (headerFromStream s flags).1.has flag = (flags &&& flag != 0) := by
  change ((flags ||| if s.needsAck then TcpFlag.ack else 0#8) &&& flag != 0) = _
  split
  · rw [BitVec.and_or_distrib_right, hflag, BitVec.or_zero]
  · rw [BitVec.or_zero]

section

variable {s : Stream σ} {evs : List TcpEvent}

@[simp] theorem isFin_tcpSend (data : ByteMem) (sz : BitVec 16) :
    (s.callEvent (.tcpSend data sz)).isFin = false := headerFromStream_has s TcpFlag.psh (by decide)

@[simp] theorem isFin_tcpClose : (s.callEvent .tcpClose).isFin = true :=
  headerFromStream_has s TcpFlag.fin (by decide)

@[simp] theorem isFin_synAckEvent : (synAckEvent s).isFin = false :=
  headerFromStream_has { s with localSeq := 1 } (TcpFlag.syn ||| TcpFlag.ack) (by decide)

/-- An empty segment carries nothing. -/
theorem carries_tcpSend_zero (data : ByteMem) :
    (s.callEvent (.tcpSend data 0)).carries = false := isFin_tcpSend data 0

theorem carries_finEvent_ack : (s.finEvent TcpFlag.ack).carries = false :=
  headerFromStream_has { s with ackSeq := s.ackSeq + 1 } TcpFlag.ack (by decide)

/-! ## One stream -/

/-- Nothing followed the `Fin`, and there was none while the stream is open. -/
structure FinLast (s : Stream σ) (evs : List TcpEvent) : Prop where
  quiet : NothingAfterFin evs
  none : s.state = .synReceived ∨ s.state = .established → ∀ e ∈ evs, e.isFin = false

/-- An event behind the others. -/
theorem NothingAfterFin.append (h : NothingAfterFin evs) {e : TcpEvent}
    (he : (∀ e' ∈ evs, e'.isFin = false) ∨ e.carries = false) : NothingAfterFin (evs ++ [e]) := by
  refine List.pairwise_append.mpr ⟨h, List.pairwise_singleton _ _, fun a ha b hb => ?_⟩
  cases List.mem_singleton.mp hb
  intro hfin
  obtain hnone | hcarries := he
  · exact absurd hfin (Bool.eq_false_iff.mp (hnone a ha))
  · exact hcarries

namespace FinLast

/-- An event that is no `Fin` leaves the stream open. -/
theorem append (h : FinLast s evs) {e : TcpEvent} (hfin : e.isFin = false)
    (he : (s.state = .synReceived ∨ s.state = .established) ∨ e.carries = false) :
    FinLast s (evs ++ [e]) where
  quiet := h.quiet.append (he.imp_left h.none)
  none hopen e' he' := by
    obtain he' | he' := List.mem_append.mp he'
    · exact h.none hopen e' he'
    · cases List.mem_singleton.mp he'
      exact hfin

theorem call {c : AppCall} (h : FinLast s evs) (hc : BeforeFin s c) :
    FinLast (s.afterCall c) (evs ++ [s.callEvent c]) := by
  cases c with
  | tcpSend data sz =>
      have hcarries : (s.state = .synReceived ∨ s.state = .established) ∨
          (s.callEvent (.tcpSend data sz)).carries = false := by
        refine hc.imp_right ?_
        rintro ⟨data', heq⟩
        cases heq
        exact carries_tcpSend_zero data
      have hsend := h.append (isFin_tcpSend data sz) hcarries
      exact ⟨hsend.quiet, hsend.none⟩
  | tcpClose =>
      have hopen := hc.resolve_right fun ⟨_, heq⟩ => by cases heq
      refine ⟨h.quiet.append (.inl (h.none hopen)), fun hstate => ?_⟩
      obtain hstate | hstate := hstate <;> cases hstate

theorem logInvariant :
    LogInvariant 0 BeforeFin (FinLast (σ := σ)) NothingAfterFin where
  opened addr junk dev hdr srcIp fn _ :=
    ⟨List.pairwise_singleton _ _, fun _ => List.forall_mem_singleton.mpr isFin_synAckEvent⟩
  ack s evs hdr h _ := by
    refine ⟨h.quiet, fun hopen => h.none ?_⟩
    rw [Stream.afterAck] at hopen
    cases hstate : s.state <;> rw [hstate] at hopen <;> simp at hopen ⊢
  data s evs hdr data len h _ := ⟨h.quiet, h.none⟩
  push s evs calls h hcalls := by
    refine push_of_calls (fun s evs h => ?_) (fun s evs c h hc => h.call hc)
      (fun s evs h => ⟨h.quiet, h.none⟩) h hcalls
    exact h.append rfl (.inr rfl)
  call s evs c h hc := h.call hc
  fin s evs h hstate := by
    refine ⟨h.quiet.append (.inl (h.none (.inr hstate))), fun hopen => ?_⟩
    obtain hopen | hopen := hopen <;> cases hopen
  acked s evs h _ := h.quiet.append (.inr rfl)
  closed s evs h _ := by
    have hquiet := (h.quiet.append (.inr (carries_finEvent_ack (s := s)))).append
      (e := .freed s.addr s.buffered) (.inr rfl)
    rw [List.append_assoc] at hquiet
    exact hquiet

end FinLast

end

/-! ## The states -/

/-- The stream has not moved back behind this state. -/
def ForwardFrom (s₀ : Stream σ) (s : Stream σ) (_ : List TcpEvent) : Prop :=
  s.addr = s₀.addr → Forward s₀.state s.state

theorem forward_call {s₀ s : Stream σ} {evs evs' : List TcpEvent} {c : AppCall}
    (h : ForwardFrom s₀ s evs) (hc : BeforeFin s c) : ForwardFrom s₀ (s.afterCall c) evs' := by
  intro haddr
  cases c with
  | tcpSend data sz => exact h haddr
  | tcpClose =>
      obtain hopen | ⟨_, heq⟩ := hc
      · refine (h haddr).trans ?_
        obtain hstate | hstate := hopen <;> rw [hstate]
        · exact (Relation.ReflTransGen.single .acked).tail .closed
        · exact .single .closed
      · cases heq

theorem forwardFrom_logInvariant (s₀ : Stream σ) {base : Nat} (hbase : s₀.addr < base) :
    LogInvariant base BeforeFin (ForwardFrom s₀) fun _ => True where
  opened addr junk dev hdr srcIp fn hle haddr := by
    have heq : addr = s₀.addr := haddr
    omega
  ack s evs hdr h _ haddr := by
    refine (h haddr).trans ?_
    rw [Stream.afterAck]
    cases hstate : s.state with
    | synReceived => exact .single .acked
    | finWait1 => exact .single .finAcked
    | _ => exact .refl
  data s evs hdr data len h _ := h
  push s evs calls h hcalls := by
    refine push_of_calls (P := ForwardFrom s₀) (fun s evs h => h) (fun s evs c h hc => ?_)
      (fun s evs h => h) h hcalls
    exact forward_call h hc
  call s evs c h hc := forward_call h hc
  fin s evs h hstate haddr := by
    have hforward := h haddr
    rw [hstate] at hforward
    exact hforward.trans (.single .finished)
  acked _ _ _ _ := trivial
  closed _ _ _ _ := trivial

/-! ## Runs -/

/-- Two requests on one HTTP connection: the response to the second one follows the `Fin`
behind the first. -/
theorem response_after_fin : ¬∀ (junk : Nat → ByteMem) (file : Nat → FileRead)
    (ops : List (KernelOp Services)) (k : Kernel Services),
    Transition.exec kernelStep (bootServices junk file) ops = .ok k →
      ∀ a, NothingAfterFin (own a k.log) := by
  intro claim
  have hrun : Transition.check kernelStep (fun _ _ => True)
      (fun k => !decide (NothingAfterFin (own 5 k.log)))
      (bootServices (fun _ _ => 0) fun _ => ⟨0, fun _ => 0, by decide⟩)
      [.frame ⟨0xC0A80302, 0⟩ peerArp,
        .segment (peerSegment TcpFlag.syn 5 1 0 []),
        .segment (peerSegment (TcpFlag.psh ||| TcpFlag.ack) 5 2 2 [71]),
        .segment (peerSegment (TcpFlag.psh ||| TcpFlag.ack) 5 3 2 [71])] = true := by
    decide +kernel
  obtain ⟨k, run, hbad⟩ := Transition.Run.of_check hrun
  rw [Bool.not_eq_true', decide_eq_false_iff_not] at hbad
  exact hbad (claim _ _ _ k run.exec_eq 5)

/-- In every run in which the applications send no payload and close nothing on a stream
that has sent its `Fin`, nothing follows a `Fin` on its stream, and no state moves back. -/
theorem nothing_after_fin (junk : Nat → ByteMem) (app : σ) (ops : List (KernelOp σ))
    (k : Kernel σ) (run : Transition.Run kernelStep (Allows BeforeFin) (.boot junk app) ops k) :
    (∀ a, NothingAfterFin (own a k.log)) ∧
      ∀ ops' k', Transition.Run kernelStep (Allows BeforeFin) k ops' k' →
        ∀ s ∈ k.allStreams, ∀ s' ∈ k'.allStreams, s'.addr = s.addr →
          Forward s.state s'.state := by
  have hkeeps := FinLast.logInvariant.run run (boot_keeps junk app) (Nat.zero_le _)
  refine ⟨hkeeps.own (fun _ _ h => h.quiet) (fun _ h => h) List.Pairwise.nil, ?_⟩
  intro ops' k' run' s hs s' hs' haddr
  have hstart : k.Keeps (ForwardFrom s) fun _ => True := by
    refine ⟨hkeeps.wf, hkeeps.bound, fun t ht haddr => ?_, fun _ _ => .inr trivial⟩
    rw [hkeeps.wf.unique.eq_of_key_eq ht hs haddr]
  have hend := (forwardFrom_logInvariant s (hkeeps.wf.below s hs)).run run' hstart (Nat.le_refl _)
  exact hend.streams s' hs' haddr

/-- A connection that the application closes. -/
theorem nothing_after_fin_run : ∃ k : Kernel Unit,
    Transition.Run kernelStep (Allows BeforeFin) (.boot (fun _ _ => 0) ())
      [.tcpListen 80 fun app => (app, fun app _ _ _ => (app, [])),
        .segment (peerSegment TcpFlag.syn 5 1 0 []),
        .segment (peerSegment TcpFlag.ack 5 2 2 []),
        .tcpClose 2,
        .segment (peerSegment TcpFlag.ack 5 2 3 [65])] k ∧
      (∃ e ∈ own 2 k.log, e.isFin = true) ∧ NothingAfterFin (own 2 k.log) := by
  have hrun : Transition.check kernelStep
      (fun k op => (∀ c ∈ op.call?, ∀ s ∈ k.allStreams, s.state = .established) ∧
        ∀ g ∈ op.segment?, g.has TcpFlag.psh = false)
      (fun k => (own 2 k.log).any TcpEvent.isFin) (Kernel.boot (fun _ _ => 0) ())
      [.tcpListen 80 fun app => (app, fun app _ _ _ => (app, [])),
        .segment (peerSegment TcpFlag.syn 5 1 0 []),
        .segment (peerSegment TcpFlag.ack 5 2 2 []),
        .tcpClose 2,
        .segment (peerSegment TcpFlag.ack 5 2 3 [65])] = true := by
    decide +kernel
  obtain ⟨k, run, hfin⟩ := Transition.Run.of_check hrun
  have run : Transition.Run kernelStep (Allows BeforeFin) _ _ k := run.mono fun k op h => by
    refine ⟨fun s hs c hc => .inl (.inr (h.1 _ hc s hs)), fun g hg hpsh => ?_, fun g hg hpsh => ?_⟩
    · cases (h.2 g hg).symm.trans hpsh
    · cases (h.2 g hg).symm.trans hpsh
  exact ⟨k, run, List.any_eq_true.mp hfin, (nothing_after_fin _ () _ k run).1 2⟩

end BadOs
