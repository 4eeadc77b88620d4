import BadOs.Net.System

/-!
# The receive buffer

`buffer_data` checks for room with a 32-bit sum. The payload length is the difference
of two numbers of the peer, and when it is negative the sum can wrap around to a small
one.
-/

namespace BadOs

variable {σ : Type}

/-- `buffer_data` returns with the offset inside the buffer, and what it copies lies in
the `sz` bytes of the segment and fits behind the offset. -/
structure BufferSafe (s : Stream σ) (hdr : TcpHdr) (data : ByteMem) (sz : BitVec 32) : Prop where
  returns : ∃ s', bufferData hdr data (some s) (payloadLen hdr sz) = .ok (some s') ∧
    s'.readOffset ≤ s'.readMax
  source : copies s (payloadLen hdr sz) →
    4 * hdr.offset.toNat + (payloadLen hdr sz).toNat ≤ sz.toNat
  dest : copies s (payloadLen hdr sz) →
    s.readOffset.toNat + (payloadLen hdr sz).toNat ≤ s.readMax.toNat

/-- The record has the buffer that `connected` gave it, and the offset is inside. -/
structure Stream.BufferOk (s : Stream σ) : Prop where
  readMax : s.readMax = maxReadBuffer
  readOffset : s.readOffset ≤ maxReadBuffer

theorem bufferOk_invariant : StreamInvariant (Stream.BufferOk (σ := σ)) where
  ack s hdr h := ⟨h.readMax, h.readOffset⟩
  data s hdr data len h hroom := by
    refine ⟨h.readMax, ?_⟩
    rw [h.readMax] at hroom
    have hmax : maxReadBuffer.toNat = 2048 := rfl
    change s.readOffset + len ≤ maxReadBuffer
    rw [BitVec.le_def, BitVec.toNat_add_of_lt (by omega)]
    exact hroom
  call s c h := by cases c <;> exact ⟨h.readMax, h.readOffset⟩
  push s h := ⟨h.readMax, Nat.zero_le 2048⟩
  last s h := ⟨h.readMax, h.readOffset⟩

/-- Every stream of every reachable state has its offset inside its buffer. -/
theorem run_bufferOk {junk : Nat → ByteMem} {app : σ} {ops : List (KernelOp σ)} {k : Kernel σ}
    (run : Transition.Run kernelStep (fun _ _ => True) (.boot junk app) ops k) :
    ∀ s ∈ k.allStreams, s.BufferOk :=
  run.invariant (I := fun k => ∀ s ∈ k.allStreams, s.BufferOk)
    (fun _ _ _ h _ hstep => bufferOk_invariant.step h
      (fun _ _ _ _ _ _ _ => ⟨rfl, Nat.zero_le 2048⟩) hstep)
    fun _ h => nomatch h

/-- The payload length in natural numbers: negative differences count from `2 ^ 32`. -/
theorem payloadLen_toNat (hdr : TcpHdr) (sz : BitVec 32) :
    (payloadLen hdr sz).toNat = (sz.toNat + 2 ^ 32 - 4 * hdr.offset.toNat) % 2 ^ 32 := by
  have hoffset := hdr.offset.isLt
  have hsz := sz.isLt
  have hfour : (4 * hdr.offset.setWidth 32 : BitVec 32).toNat = 4 * hdr.offset.toNat := by
    rw [BitVec.toNat_mul, BitVec.toNat_setWidth_of_le (by decide)]
    exact Nat.mod_eq_of_lt (by change 4 * _ < _; omega)
  rw [payloadLen, BitVec.toNat_sub, hfour]
  omega

theorem Stream.BufferOk.copies_iff {s : Stream σ} (ok : s.BufferOk) {len : BitVec 32} :
    copies s len ↔ len ≠ 0 ∧ (s.readOffset.toNat + len.toNat) % 2 ^ 32 ≤ 2048 := by
  rw [copies, ok.readMax, BitVec.not_lt, BitVec.le_def, BitVec.toNat_add]
  rfl

/-- The sum in the space check must not wrap around. -/
theorem Stream.BufferOk.bufferSafe_iff {s : Stream σ} (ok : s.BufferOk) (hdr : TcpHdr)
    (data : ByteMem) (sz : BitVec 32) :
    BufferSafe s hdr data sz ↔
      s.readOffset.toNat + (payloadLen hdr sz).toNat < 2 ^ 32 := by
  have hlen := payloadLen_toNat hdr sz
  have hoffset := hdr.offset.isLt
  have hsz := sz.isLt
  have hread : s.readOffset.toNat ≤ 2048 := ok.readOffset
  have hmax : s.readMax.toNat = 2048 := by rw [ok.readMax]; rfl
  constructor
  · intro safe
    refine Nat.lt_of_not_le fun hwrap => ?_
    have hne : payloadLen hdr sz ≠ 0 := fun hzero => by
      rw [hzero] at hwrap
      exact absurd hwrap (by change ¬2 ^ 32 ≤ s.readOffset.toNat + 0; omega)
    have hcopies : copies s (payloadLen hdr sz) := ok.copies_iff.mpr ⟨hne, by omega⟩
    have hdest := safe.dest hcopies
    omega
  · intro nowrap
    have inside : copies s (payloadLen hdr sz) →
        s.readOffset.toNat + (payloadLen hdr sz).toNat ≤ 2048 := fun hcopies => by
      have hsum := (ok.copies_iff.mp hcopies).2
      rwa [Nat.mod_eq_of_lt nowrap] at hsum
    refine ⟨?_, fun hcopies => ?_, fun hcopies => hmax ▸ inside hcopies⟩
    · by_cases hcopies : copies s (payloadLen hdr sz)
      · obtain ⟨hne, hroom⟩ := hcopies
        have hin := inside ⟨hne, hroom⟩
        refine ⟨s.afterData hdr data (payloadLen hdr sz), ?_, ?_⟩
        · rw [bufferData, if_neg hne]
          change (if s.readMax < s.readOffset + _ then _ else _) = _
          rw [if_neg hroom, if_neg (by omega)]
          rfl
        · change s.readOffset + payloadLen hdr sz ≤ s.readMax
          exact BitVec.not_lt.mp hroom
      · refine ⟨s, ?_, ok.readMax ▸ ok.readOffset⟩
        rw [bufferData]
        split
        · rfl
        · next hne =>
          change (if s.readMax < s.readOffset + _ then _ else _) = _
          rw [if_pos (Classical.not_not.mp fun hroom => hcopies ⟨hne, hroom⟩)]
          rfl
    · have hin := inside hcopies
      omega

/-- A connection whose stream holds 40 bytes. -/
theorem exists_forty_buffered : ∃ k : Kernel Unit,
    Transition.exec kernelStep (.boot (fun _ _ => 0) ())
      [.tcpListen 80 fun app => (app, fun app _ _ _ => (app, [])),
        .segment (peerSegment TcpFlag.syn 5 1 0 []),
        .segment (peerSegment TcpFlag.ack 5 2 2 (List.replicate 40 65))] = .ok k ∧
      ∃ s ∈ k.allStreams, s.readOffset = 40 := by
  have hrun : Transition.check kernelStep (fun _ _ => True)
      (fun k => k.allStreams.any fun s => s.readOffset == 40)
      (Kernel.boot (fun _ _ => 0) ())
      [.tcpListen 80 fun app => (app, fun app _ _ _ => (app, [])),
        .segment (peerSegment TcpFlag.syn 5 1 0 []),
        .segment (peerSegment TcpFlag.ack 5 2 2 (List.replicate 40 65))] = true := by
    decide +kernel
  obtain ⟨k, run, hany⟩ := Transition.Run.of_check hrun
  obtain ⟨s, hs, hoffset⟩ := List.any_eq_true.mp hany
  exact ⟨k, run.exec_eq, s, hs, eq_of_beq hoffset⟩

/-- A run up to a stream that holds 40 bytes, and a header that is longer than the
segment. -/
theorem buffer_overrun : ¬∀ (junk : Nat → ByteMem) (ops : List (KernelOp Unit)) (k : Kernel Unit),
    Transition.exec kernelStep (.boot junk ()) ops = .ok k → ∀ s ∈ k.allStreams,
      ∀ (hdr : TcpHdr) (data : ByteMem) (sz : BitVec 32), BufferSafe s hdr data sz := by
  intro claim
  obtain ⟨k, run, s, hs, hoffset⟩ := exists_forty_buffered
  have hsafe := claim _ _ k run s hs (peerSegment TcpFlag.ack 15 42 2 []).hdr (fun _ => 0) 20
  have ok := run_bufferOk (.of_exec run fun _ _ => trivial) s hs
  have hlt := (ok.bufferSafe_iff _ _ _).mp hsafe
  rw [hoffset] at hlt
  exact absurd hlt (by decide +kernel)

/-- In every reachable state, for every stream and every segment, the offset is inside
the buffer, and `buffer_data` is safe exactly when the sum in its space check does not
wrap around. -/
theorem reachable_bufferSafe_iff (junk : Nat → ByteMem) (app : σ) (ops : List (KernelOp σ))
    (k : Kernel σ) (run : Transition.exec kernelStep (.boot junk app) ops = .ok k) :
    ∀ s ∈ k.allStreams, s.readOffset ≤ s.readMax ∧
      ∀ (hdr : TcpHdr) (data : ByteMem) (sz : BitVec 32), BufferSafe s hdr data sz ↔
        s.readOffset.toNat + (payloadLen hdr sz).toNat < 2 ^ 32 := by
  intro s hs
  have ok := run_bufferOk (.of_exec run fun _ _ => trivial) s hs
  exact ⟨ok.readMax ▸ ok.readOffset, ok.bufferSafe_iff⟩

theorem reachable_bufferSafe_run : ∃ k : Kernel Unit,
    Transition.exec kernelStep (.boot (fun _ _ => 0) ())
      [.tcpListen 80 fun app => (app, fun app _ _ _ => (app, [])),
        .segment (peerSegment TcpFlag.syn 5 1 0 []),
        .segment (peerSegment TcpFlag.ack 5 2 2 (List.replicate 40 65))] = .ok k ∧
      ∃ s ∈ k.allStreams, s.readOffset = 40 ∧
        ∀ data, BufferSafe s (peerSegment TcpFlag.ack 5 42 2 [66]).hdr data 21 := by
  obtain ⟨k, run, s, hs, hoffset⟩ := exists_forty_buffered
  refine ⟨k, run, s, hs, hoffset, fun data => ?_⟩
  refine ((reachable_bufferSafe_iff _ () _ k run s hs).2 _ data 21).mpr ?_
  rw [hoffset]
  decide +kernel

end BadOs
