import BadOs.Net.Connections

/-!
# The life of a stream

What a step does to one stream, and what must have happened before a stream is in a
state. `acked` looks at the flag of a segment only: no state is entered because of an
acknowledgement number, and data and `Psh` are accepted in every state.
-/

namespace BadOs

variable {σ : Type}

/-- The step is a segment that belongs to the stream, which was there before. -/
def Meets (k : Kernel σ) (op : KernelOp σ) (g : Segment) (s : Stream σ) : Prop :=
  op.segment? = some g ∧ g.opens k = false ∧ g.find k.allStreams = some s

theorem Meets.mem {k : Kernel σ} {op : KernelOp σ} {g : Segment} {s : Stream σ}
    (h : Meets k op g s) : s ∈ k.allStreams :=
  List.mem_of_find?_eq_some h.2.2

/-- What a step does to a stream. -/
inductive Fate (k : Kernel σ) (op : KernelOp σ) (s : Stream σ) (k' : Kernel σ) : Prop where
  | untouched : s ∈ k'.allStreams → (∀ g, ¬Meets k op g s) → Fate k op s k'
  | called (c : AppCall) : op.call? = some (s.addr, c) → op.segment? = none →
      s.afterCall c ∈ k'.allStreams → Fate k op s k'
  | kept {g : Segment} {k₁ : Kernel σ} (s' : Stream σ) : Meets k op g s → Kept g s k₁ s' →
      s' ∈ k'.allStreams → s'.addr = s.addr → Fate k op s k'
  | removed {g : Segment} {k₁ : Kernel σ} : Meets k op g s → Removed g s k₁ →
      (∀ s' ∈ k'.allStreams, s'.addr ≠ s.addr) → Fate k op s k'

section

variable {k k' : Kernel σ} {op : KernelOp σ} {g : Segment} {s s' : Stream σ}

/-- What a segment does to the streams. -/
theorem tcpSegment_streams (h : tcpSegment g.dev g.data g.sz g.srcIp k = .ok k') :
    (g.opens k = true ∧ ∃ s k₁ s', s.state = .synReceived ∧ s.readOffset = 0 ∧
        s.addr = newAddr k ∧ s'.addr = s.addr ∧ Kept g s k₁ s' ∧
        k'.allStreams = Keyed.replace Stream.addr s' (s :: k.allStreams)) ∨
      g.opens k = false ∧ ((g.find k.allStreams = none ∧ k'.allStreams = k.allStreams) ∨
        ∃ s k₁, g.find k.allStreams = some s ∧
          ((∃ s', s'.addr = s.addr ∧ Kept g s k₁ s' ∧
              k'.allStreams = Keyed.replace Stream.addr s' k.allStreams) ∨
            Removed g s k₁ ∧ k'.allStreams = Keyed.erase Stream.addr s.addr k.allStreams)) := by
  obtain ⟨k₁, hopened, hrest⟩ := tcpSegment_cases h
  cases hopened with
  | opened l junk n hsyn hl _ _ =>
      refine Or.inl ⟨Segment.opens_of_listener hsyn hl, ?_⟩
      obtain ⟨hnone, _⟩ | ⟨s, hs, hserve⟩ := hrest
      · exact nomatch (find_opened g _ _ _ _).symm.trans hnone
      · cases (find_opened g _ _ _ _).symm.trans hs
        obtain ⟨_, _, ⟨s', hconn, hkept, hstreams⟩ | ⟨hremoved, _⟩⟩ := hserve.frame
        · exact ⟨_, _, s', rfl, rfl, rfl, hconn.addr, hkept, hstreams⟩
        · exact absurd hremoved (not_removed_of_synReceived rfl)
  | kept n hopens _ =>
      refine Or.inr ⟨hopens, ?_⟩
      obtain ⟨hnone, n', _, rfl⟩ | ⟨s, hs, hserve⟩ := hrest
      · exact Or.inl ⟨hnone, rfl⟩
      · obtain ⟨_, _, ⟨s', hconn, hkept, hstreams⟩ | hgone⟩ := hserve.frame
        · exact Or.inr ⟨s, _, hs, Or.inl ⟨s', hconn.addr, hkept, hstreams⟩⟩
        · exact Or.inr ⟨s, _, hs, Or.inr hgone⟩

/-- Every stream has one of the fates. -/
theorem kernelStep_fate (wf : k.Wf) (h : kernelStep k op = .ok k') (hs : s ∈ k.allStreams) :
    Fate k op s k' := by
  obtain ⟨g, n, hop, hnext, h⟩ | ⟨hop, n, app, ports, listeners, _, rfl⟩ |
    ⟨hop, t, c, n, hcall, ht, _, rfl⟩ := kernelStep_cases h
  · obtain ⟨hopens, t, k₁, t', _, _, hnew, haddr, _, hstreams⟩ | ⟨hopens, hrest⟩ :=
      tcpSegment_streams h
    · have hne : s.addr ≠ t'.addr := by
        have hbelow := wf.below s hs
        have hnew : t.addr = n.next + 1 := hnew
        omega
      refine .untouched (hstreams ▸ Keyed.mem_replace.mpr (Or.inl
        ⟨List.mem_cons_of_mem _ hs, hne⟩)) ?_
      rintro g' ⟨hg', hopens', _⟩
      cases hop.symm.trans hg'
      exact nomatch hopens.symm.trans hopens'
    · have meets : ∀ g', Meets k op g' s → g.find k.allStreams = some s := by
        rintro g' ⟨hg', _, hfind⟩
        cases hop.symm.trans hg'
        exact hfind
      obtain ⟨hnone, hstreams⟩ | ⟨t, k₁, ht, hrest⟩ := hrest
      · exact .untouched (hstreams ▸ hs) fun g' hmeets => nomatch hnone.symm.trans (meets g' hmeets)
      · by_cases hst : s.addr = t.addr
        · obtain rfl := wf.unique.eq_of_key_eq hs (List.mem_of_find?_eq_some ht) hst
          obtain ⟨s', haddr, hkept, hstreams⟩ | ⟨hremoved, hstreams⟩ := hrest
          · exact .kept s' ⟨hop, hopens, ht⟩ hkept
              (hstreams ▸ Keyed.mem_replace.mpr (Or.inr ⟨rfl, s, hs, haddr.symm⟩)) haddr
          · exact .removed ⟨hop, hopens, ht⟩ hremoved fun s' hs' =>
              (wf.unique.mem_erase.mp (hstreams ▸ hs')).2
        · refine .untouched ?_ fun g' hmeets => hst ?_
          · obtain ⟨t', haddr, _, hstreams⟩ | ⟨_, hstreams⟩ := hrest
            · exact hstreams ▸ Keyed.mem_replace.mpr (Or.inl ⟨hs, haddr ▸ hst⟩)
            · exact hstreams ▸ wf.unique.mem_erase.mpr ⟨hs, hst⟩
          · cases ht.symm.trans (meets g' hmeets)
            rfl
  · exact .untouched hs fun g hmeets => nomatch hop.symm.trans hmeets.1
  · by_cases hst : s.addr = t.addr
    · obtain rfl := wf.unique.eq_of_key_eq hs ht hst
      exact .called c hcall hop
        (Keyed.mem_replace.mpr (Or.inr ⟨rfl, s, hs, (s.afterCall_sameConn c).addr.symm⟩))
    · exact .untouched
        (Keyed.mem_replace.mpr (Or.inl ⟨hs, (t.afterCall_sameConn c).addr ▸ hst⟩))
        fun g hmeets => nomatch hop.symm.trans hmeets.1

/-- A stream was there before, with a record at its address, or the step opened it. -/
theorem kernelStep_origin (h : kernelStep k op = .ok k') (hs' : s' ∈ k'.allStreams) :
    (∃ s ∈ k.allStreams, s.addr = s'.addr) ∨
      ∃ g s k₁, op.segment? = some g ∧ g.opens k = true ∧ s.state = .synReceived ∧
        s.readOffset = 0 ∧ Kept g s k₁ s' := by
  have replaced : ∀ {t : Stream σ} {l : List (Stream σ)},
      s' ∈ Keyed.replace Stream.addr t l → ∃ s ∈ l, s.addr = s'.addr := fun hmem => by
    obtain ⟨hmem, _⟩ | ⟨rfl, s, hs, haddr⟩ := Keyed.mem_replace.mp hmem
    · exact ⟨s', hmem, rfl⟩
    · exact ⟨s, hs, haddr⟩
  obtain ⟨g, n, hop, _, h⟩ | ⟨_, n, app, ports, listeners, _, rfl⟩ |
    ⟨_, t, c, n, _, _, _, rfl⟩ := kernelStep_cases h
  · obtain ⟨hopens, t, k₁, t', hstate, hoffset, _, haddr, hkept, hstreams⟩ | ⟨_, hrest⟩ :=
      tcpSegment_streams h
    · rw [hstreams] at hs'
      obtain ⟨hmem, hne⟩ | ⟨rfl, _⟩ := Keyed.mem_replace.mp hs'
      · obtain rfl | hmem := List.mem_cons.mp hmem
        · exact absurd haddr.symm hne
        · exact Or.inl ⟨s', hmem, rfl⟩
      · exact Or.inr ⟨g, t, k₁, hop, hopens, hstate, hoffset, hkept⟩
    · obtain ⟨_, hstreams⟩ | ⟨t, k₁, _, ⟨t', _, _, hstreams⟩ | ⟨_, hstreams⟩⟩ := hrest
      · exact Or.inl ⟨s', hstreams ▸ hs', rfl⟩
      · exact Or.inl (replaced (hstreams ▸ hs'))
      · rw [hstreams] at hs'
        exact Or.inl ⟨s', (Keyed.erase_sublist _ _).mem hs', rfl⟩
  · exact Or.inl ⟨s', hs', rfl⟩
  · exact Or.inl (replaced hs')

/-- Serving a stream calls no other read function than its own, and that for `Psh`. -/
theorem Served.read {a : Nat} {chunk : List (BitVec 8)} (h : Served g s k k')
    (hread : TcpEvent.read a chunk ∈ k'.log) :
    TcpEvent.read a chunk ∈ k.log ∨ a = s.addr ∧ g.has TcpFlag.psh = true := by
  cases h with
  | freed n _ _ _ =>
      obtain hold | hnew := List.mem_append.mp hread
      · exact Or.inl hold
      · exact nomatch List.mem_singleton.mp hnew
  | @kept s₁ k₁ k₂ p _ _ hpushed hfinished =>
      have hlog : TcpEvent.read a chunk ∈ k₁.log := by
        cases hfinished with
        | skipped _ => exact hread
        | answered n _ _ _ =>
            obtain hold | hnew := List.mem_append.mp hread
            · exact hold
            · exact nomatch List.mem_singleton.mp hnew
        | closed n _ _ _ =>
            obtain hold | hnew := List.mem_append.mp hread
            · exact hold
            · obtain hnew | hnew := List.mem_cons.mp hnew
              · exact nomatch hnew
              · exact nomatch List.mem_singleton.mp hnew
      cases hpushed with
      | skipped _ => exact Or.inl hlog
      | read n calls hpsh _ _ =>
          obtain hold | hnew := List.mem_append.mp hlog
          · exact Or.inl hold
          · obtain hnew | hnew := List.mem_cons.mp hnew
            · cases hnew
              exact Or.inr ⟨(g.receive_sameConn s).addr, hpsh⟩
            · obtain ⟨_, _, heq, _⟩ := Stream.callEvents_segment _ _ _ hnew
              exact nomatch heq

theorem kernelStep_read {a : Nat} {chunk : List (BitVec 8)} (h : kernelStep k op = .ok k')
    (hread : TcpEvent.read a chunk ∈ k'.log) :
    TcpEvent.read a chunk ∈ k.log ∨ ∃ g, op.segment? = some g ∧ g.has TcpFlag.psh = true ∧
      (g.opens k = true ∨ ∃ s, Meets k op g s ∧ s.addr = a) := by
  obtain ⟨g, n, hop, _, h⟩ | ⟨_, n, app, ports, listeners, _, rfl⟩ |
    ⟨_, s, c, n, _, _, _, rfl⟩ := kernelStep_cases h
  · obtain ⟨k₁, hopened, hrest⟩ := tcpSegment_cases h
    have hread₁ : TcpEvent.read a chunk ∈ k₁.log ∨
        ∃ s, g.find k₁.allStreams = some s ∧ a = s.addr ∧ g.has TcpFlag.psh = true := by
      obtain ⟨_, _, _, rfl⟩ | ⟨s, hs, hserve⟩ := hrest
      · exact Or.inl hread
      · exact (hserve.read hread).imp_right fun ⟨haddr, hpsh⟩ => ⟨s, hs, haddr, hpsh⟩
    cases hopened with
    | opened l junk n hsyn hl _ _ =>
        have hopens : g.opens k = true := Segment.opens_of_listener hsyn hl
        obtain hread₁ | ⟨_, _, _, hpsh⟩ := hread₁
        · obtain hold | hnew := List.mem_append.mp hread₁
          · exact Or.inl hold
          · exact nomatch List.mem_singleton.mp hnew
        · exact Or.inr ⟨g, hop, hpsh, Or.inl hopens⟩
    | kept n hopens _ =>
        exact hread₁.imp_right fun ⟨s, hs, haddr, hpsh⟩ =>
          ⟨g, hop, hpsh, Or.inr ⟨s, ⟨hop, hopens, hs⟩, haddr.symm⟩⟩
  · exact Or.inl hread
  · obtain hold | hnew := List.mem_append.mp hread
    · exact Or.inl hold
    · cases c <;> exact nomatch List.mem_singleton.mp hnew

end

/-! ## States -/

section

variable {k k' : Kernel σ} {op : KernelOp σ} {g : Segment} {s s' : Stream σ}

/-- A read function of the stream may close it. -/
def Stream.MayClose (s : Stream σ) : Prop :=
  ∃ app heap data sz, AppCall.tcpClose ∈ (s.readFn app heap data sz).2

theorem receive_state_of_not_ack (h : g.has TcpFlag.ack = false) :
    (g.receive s).state = s.state := by
  unfold Segment.receive Segment.acknowledge
  rw [if_neg (Bool.eq_false_iff.mp h)]
  split <;> rfl

theorem receive_state_of_ack (h : g.has TcpFlag.ack = true) :
    (g.receive s).state = (s.afterAck g.hdr).state := by
  unfold Segment.receive Segment.acknowledge
  rw [if_pos h]
  split <;> rfl

/-- A stream leaves `SynReceived` for `Ack`, or when it is closed. -/
theorem Kept.left_synReceived (h : Kept g s k s') (hstate : s.state = .synReceived)
    (hleft : s'.state ≠ .synReceived) :
    g.has TcpFlag.ack = true ∨ g.has TcpFlag.psh = true ∧ s.MayClose := by
  rw [or_iff_not_imp_left, Bool.not_eq_true]
  intro hack
  have hreceive := (receive_state_of_not_ack (s := s) hack).trans hstate
  have hfn := (g.receive_sameConn s).readFn
  cases h with
  | same _ hpushed _ =>
      obtain hsame | ⟨_, hpsh, hclose⟩ := hpushed.state
      · exact absurd (hsame.trans hreceive) hleft
      · rw [hfn] at hclose
        exact ⟨hpsh, hclose⟩
  | last _ hpushed hest _ =>
      obtain hsame | ⟨hfin, _⟩ := hpushed.state
      · exact nomatch (hsame.trans hreceive).symm.trans hest
      · exact nomatch hfin.symm.trans hest

/-- A stream enters `Established` for `Ack`. -/
theorem Kept.entered_established (h : Kept g s k s') (hstate : s.state ≠ .established)
    (hest : s'.state = .established) : g.has TcpFlag.ack = true := by
  refine Bool.eq_true_of_not_eq_false fun hack => hstate ?_
  rw [← receive_state_of_not_ack (s := s) hack]
  cases h with
  | same _ hpushed _ =>
      obtain hsame | ⟨hfin, _⟩ := hpushed.state
      · exact hsame.symm.trans hest
      · exact nomatch hfin.symm.trans hest
  | last _ _ _ hs' => exact nomatch (congrArg Stream.state hs').symm.trans hest

/-- Bytes get into the buffer from a segment with payload. -/
theorem Kept.readOffset (h : Kept g s k s') (hoffset : s.readOffset = 0)
    (hs' : s'.readOffset ≠ 0) : g.len ≠ 0 := by
  intro hlen
  have hreceive : (g.receive s).readOffset = 0 := by
    rw [Segment.receive, if_neg fun hcopies => hcopies.1 hlen, ← hoffset, Segment.acknowledge]
    split <;> rfl
  have pushed : ∀ {s₁ k₁}, Pushed (g.has TcpFlag.psh) (g.receive s) k s₁ k₁ →
      s₁.readOffset = 0 := by
    intro s₁ k₁ hpushed
    cases hpushed with
    | skipped _ => exact hreceive
    | read n calls _ _ _ => rfl
  cases h with
  | same _ hpushed _ => exact hs' (pushed hpushed)
  | @last s₁ k₁ _ hpushed _ heq =>
      have hoffset₁ : s₁.readOffset = 0 := pushed hpushed
      exact hs' ((congrArg Stream.readOffset heq).trans hoffset₁)

end

/-! ## The handshake -/

/-- A `Syn` that opens a stream carries nothing else that concerns it. -/
def PlainSyn (k : Kernel σ) (op : KernelOp σ) : Prop :=
  ∀ g, op.segment? = some g → g.opens k = true →
    g.has TcpFlag.ack = false ∧ g.has TcpFlag.psh = false ∧ g.len = 0

instance (k : Kernel σ) (op : KernelOp σ) : Decidable (PlainSyn k op) :=
  inferInstanceAs (Decidable (∀ g ∈ op.segment?, g.opens k = true → _))

/-- The event happened to the stream at `addr` in one of the steps, when the stream was
there already. -/
def Happened (event : Kernel σ → KernelOp σ → Stream σ → Prop) (k₀ : Kernel σ)
    (ops : List (KernelOp σ)) (addr : Nat) : Prop :=
  ∃ ops₁ op ops₂ k s, ops = ops₁ ++ op :: ops₂ ∧ Transition.exec kernelStep k₀ ops₁ = .ok k ∧
    s ∈ k.allStreams ∧ s.addr = addr ∧ event k op s

/-- A segment of the stream with `Ack`, whatever its number. -/
def AckArrives (k : Kernel σ) (op : KernelOp σ) (s : Stream σ) : Prop :=
  ∃ g, Meets k op g s ∧ g.has TcpFlag.ack = true

/-- A segment of the stream with payload. -/
def DataArrives (k : Kernel σ) (op : KernelOp σ) (s : Stream σ) : Prop :=
  ∃ g, Meets k op g s ∧ g.len ≠ 0

/-- A segment of the stream with `Psh`. -/
def PshArrives (k : Kernel σ) (op : KernelOp σ) (s : Stream σ) : Prop :=
  ∃ g, Meets k op g s ∧ g.has TcpFlag.psh = true

/-- The application closes the stream, itself or from its read function. -/
def Closes (k : Kernel σ) (op : KernelOp σ) (s : Stream σ) : Prop :=
  op.call? = some (s.addr, .tcpClose) ∨ PshArrives k op s ∧ s.MayClose

section

variable {k k' : Kernel σ} {op : KernelOp σ} {a : Nat}

/-- What is true of a record after a step and of no record at its address before: the
step is responsible, and did not open the stream if new records do not have the
property. -/
theorem responsible {P : Stream σ → Prop} (wf : k.Wf) (h : kernelStep k op = .ok k')
    (before : ∀ s ∈ k.allStreams, s.addr = a → ¬P s) {s' : Stream σ} (hs' : s' ∈ k'.allStreams)
    (haddr : s'.addr = a) (after : P s')
    (opened : ∀ g s k₁, op.segment? = some g → g.opens k = true → s.state = .synReceived →
      s.readOffset = 0 → Kept g s k₁ s' → ¬P s') :
    ∃ s ∈ k.allStreams, s.addr = a ∧ ¬P s ∧
      ((∃ c, op.call? = some (s.addr, c) ∧ s' = s.afterCall c) ∨
        ∃ g k₁, Meets k op g s ∧ Kept g s k₁ s') := by
  obtain ⟨s, hs, hsaddr⟩ | ⟨g, s, k₁, hop, hopens, hstate, hoffset, hkept⟩ :=
    kernelStep_origin h hs'
  · have hnot := before s hs (hsaddr.trans haddr)
    have same : ∀ t ∈ k'.allStreams, t.addr = s.addr → t = s' := fun t ht htaddr =>
      (wf.step h).unique.eq_of_key_eq ht hs' (htaddr.trans hsaddr)
    refine ⟨s, hs, hsaddr.trans haddr, hnot, ?_⟩
    cases kernelStep_fate wf h hs with
    | untouched hmem _ => exact absurd after (same s hmem rfl ▸ hnot)
    | called c hcall _ hmem =>
        exact Or.inl ⟨c, hcall, (same _ hmem (s.afterCall_sameConn c).addr).symm⟩
    | kept t hmeets hkept ht htaddr =>
        exact Or.inr ⟨_, _, hmeets, same t ht htaddr ▸ hkept⟩
    | removed _ _ hgone => exact absurd hsaddr.symm (hgone s' hs')
  · exact absurd after (opened g s k₁ hop hopens hstate hoffset hkept)

theorem leaves_synReceived (wf : k.Wf) (h : kernelStep k op = .ok k') (plain : PlainSyn k op)
    (before : ¬∃ s ∈ k.allStreams, s.addr = a ∧ s.state ≠ .synReceived)
    (after : ∃ s ∈ k'.allStreams, s.addr = a ∧ s.state ≠ .synReceived) :
    ∃ s ∈ k.allStreams, s.addr = a ∧ (AckArrives k op s ∨ Closes k op s) := by
  obtain ⟨s', hs', haddr, hleft⟩ := after
  obtain ⟨s, hs, hsaddr, hstate, hcause⟩ := responsible (P := fun s => s.state ≠ .synReceived)
    wf h (fun s hs haddr hleft => before ⟨s, hs, haddr, hleft⟩) hs' haddr hleft
    fun g s k₁ hop hopens hstate _ hkept hleft => by
      obtain ⟨hack, hpsh, _⟩ := plain g hop hopens
      obtain hack' | ⟨hpsh', _⟩ := hkept.left_synReceived hstate hleft
      · exact nomatch hack.symm.trans hack'
      · exact nomatch hpsh.symm.trans hpsh'
  have hstate := Classical.not_not.mp hstate
  refine ⟨s, hs, hsaddr, ?_⟩
  obtain ⟨c, hcall, rfl⟩ | ⟨g, k₁, hmeets, hkept⟩ := hcause
  · cases c with
    | tcpSend data sz => exact absurd hstate hleft
    | tcpClose => exact Or.inr (Or.inl hcall)
  · exact (hkept.left_synReceived hstate hleft).imp (fun hack => ⟨g, hmeets, hack⟩)
      fun ⟨hpsh, hclose⟩ => Or.inr ⟨⟨g, hmeets, hpsh⟩, hclose⟩

theorem enters_established (wf : k.Wf) (h : kernelStep k op = .ok k') (plain : PlainSyn k op)
    (before : ¬∃ s ∈ k.allStreams, s.addr = a ∧ s.state = .established)
    (after : ∃ s ∈ k'.allStreams, s.addr = a ∧ s.state = .established) :
    ∃ s ∈ k.allStreams, s.addr = a ∧ AckArrives k op s := by
  obtain ⟨s', hs', haddr, hest⟩ := after
  obtain ⟨s, hs, hsaddr, hstate, hcause⟩ := responsible (P := fun s => s.state = .established)
    wf h (fun s hs haddr hest => before ⟨s, hs, haddr, hest⟩) hs' haddr hest
    fun g s k₁ hop hopens hstate _ hkept hest => by
      have hack := hkept.entered_established (fun h => nomatch hstate.symm.trans h) hest
      exact nomatch (plain g hop hopens).1.symm.trans hack
  refine ⟨s, hs, hsaddr, ?_⟩
  obtain ⟨c, _, rfl⟩ | ⟨g, k₁, hmeets, hkept⟩ := hcause
  · cases c with
    | tcpSend data sz => exact absurd hest hstate
    | tcpClose => exact nomatch hest
  · exact ⟨g, hmeets, hkept.entered_established hstate hest⟩

theorem receives_data (wf : k.Wf) (h : kernelStep k op = .ok k') (plain : PlainSyn k op)
    (before : ¬∃ s ∈ k.allStreams, s.addr = a ∧ s.readOffset ≠ 0)
    (after : ∃ s ∈ k'.allStreams, s.addr = a ∧ s.readOffset ≠ 0) :
    ∃ s ∈ k.allStreams, s.addr = a ∧ DataArrives k op s := by
  obtain ⟨s', hs', haddr, hdata⟩ := after
  obtain ⟨s, hs, hsaddr, hempty, hcause⟩ := responsible (P := fun s => s.readOffset ≠ 0)
    wf h (fun s hs haddr hdata => before ⟨s, hs, haddr, hdata⟩) hs' haddr hdata
    fun g s k₁ hop hopens _ hoffset hkept hdata =>
      hkept.readOffset hoffset hdata (plain g hop hopens).2.2
  have hempty := Classical.not_not.mp hempty
  refine ⟨s, hs, hsaddr, ?_⟩
  obtain ⟨c, _, rfl⟩ | ⟨g, k₁, hmeets, hkept⟩ := hcause
  · cases c <;> exact absurd hempty hdata
  · exact ⟨g, hmeets, hkept.readOffset hempty hdata⟩

theorem calls_readFn (h : kernelStep k op = .ok k') (plain : PlainSyn k op)
    (before : ¬∃ chunk, TcpEvent.read a chunk ∈ k.log)
    (after : ∃ chunk, TcpEvent.read a chunk ∈ k'.log) :
    ∃ s ∈ k.allStreams, s.addr = a ∧ PshArrives k op s := by
  obtain ⟨chunk, hread⟩ := after
  obtain hold | ⟨g, hop, hpsh, hopens | ⟨s, hmeets, haddr⟩⟩ := kernelStep_read h hread
  · exact absurd ⟨chunk, hold⟩ before
  · exact nomatch (plain g hop hopens).2.1.symm.trans hpsh
  · exact ⟨s, hmeets.mem, haddr, g, hmeets, hpsh⟩

end

/-- What is not true at boot and true at the end of a run came about in a step, with the
event that the step needs for it. -/
theorem happened {event : Kernel σ → KernelOp σ → Stream σ → Prop} {P : Kernel σ → Prop}
    {junk : Nat → ByteMem} {app : σ} {ops : List (KernelOp σ)} {k : Kernel σ} {a : Nat}
    (run : Transition.Run kernelStep PlainSyn (.boot junk app) ops k)
    (start : ¬P (.boot junk app)) (final : P k)
    (cause : ∀ k op k', k.Wf → kernelStep k op = .ok k' → PlainSyn k op → ¬P k → P k' →
      ∃ s ∈ k.allStreams, s.addr = a ∧ event k op s) :
    Happened event (.boot junk app) ops a := by
  obtain ⟨ops₁, op, ops₂, k₁, k₂, hops, run₁, plain, hstep, before, after⟩ :=
    run.exists_step start final
  have wf : k₁.Wf := run₁.invariant (I := Kernel.Wf) (fun _ _ _ wf _ h => wf.step h)
    (boot_wf junk app)
  obtain ⟨s, hs, haddr, hevent⟩ := cause k₁ op k₂ wf hstep plain before after
  exact ⟨ops₁, op, ops₂, k₁, s, hops, run₁.exec_eq, hs, haddr, hevent⟩

/-- A stream is established by a segment with a wrong number, and before that its read
function gets data. -/
theorem handshake_not_checked :
    (∃ k : Kernel Unit, Transition.exec kernelStep (.boot (fun _ _ => 0) ())
      [.tcpListen 80 fun app => (app, fun app _ _ _ => (app, [])),
        .segment (peerSegment TcpFlag.syn 5 1 0 []),
        .segment (peerSegment TcpFlag.ack 5 2 77 [])] = .ok k ∧
      ∃ s ∈ k.allStreams, s.state = .established ∧ s.localSeq = 2) ∧
    ∃ k : Kernel Nat, Transition.exec kernelStep (.boot (fun _ _ => 0) 0)
      [.tcpListen 80 fun app => (app, fun _ _ _ sz => (sz.toNat, [])),
        .segment (peerSegment TcpFlag.syn 5 1 0 []),
        .segment (peerSegment TcpFlag.psh 5 2 0 [65])] = .ok k ∧
      k.app = 1 ∧ ∃ s ∈ k.allStreams, s.state = .synReceived := by
  constructor
  · have hrun : Transition.check kernelStep (fun _ _ => True)
        (fun k => k.allStreams.any fun s => s.state == .established && s.localSeq == 2)
        (Kernel.boot (fun _ _ => 0) ())
        [.tcpListen 80 fun app => (app, fun app _ _ _ => (app, [])),
          .segment (peerSegment TcpFlag.syn 5 1 0 []),
          .segment (peerSegment TcpFlag.ack 5 2 77 [])] = true := by
      decide +kernel
    obtain ⟨k, run, hany⟩ := Transition.Run.of_check hrun
    obtain ⟨s, hs, hcheck⟩ := List.any_eq_true.mp hany
    obtain ⟨hstate, hseq⟩ := Bool.and_eq_true_iff.mp hcheck
    exact ⟨k, run.exec_eq, s, hs, eq_of_beq hstate, eq_of_beq hseq⟩
  · have hrun : Transition.check kernelStep (fun _ _ => True)
        (fun k => k.app == 1 && k.allStreams.any fun s => s.state == .synReceived)
        (Kernel.boot (fun _ _ => 0) 0)
        [.tcpListen 80 fun app => (app, fun _ _ _ sz => (sz.toNat, [])),
          .segment (peerSegment TcpFlag.syn 5 1 0 []),
          .segment (peerSegment TcpFlag.psh 5 2 0 [65])] = true := by
      decide +kernel
    obtain ⟨k, run, hcheck⟩ := Transition.Run.of_check hrun
    obtain ⟨happ, hany⟩ := Bool.and_eq_true_iff.mp hcheck
    obtain ⟨s, hs, hstate⟩ := List.any_eq_true.mp hany
    exact ⟨k, run.exec_eq, eq_of_beq happ, s, hs, eq_of_beq hstate⟩

/-- Along a run in which a `Syn` that opens a stream carries nothing else, the state, the
buffer and the read function of a stream wait for a later segment of the stream. -/
theorem handshake_gate (junk : Nat → ByteMem) (app : σ) (ops : List (KernelOp σ)) (k : Kernel σ)
    (run : Transition.Run kernelStep PlainSyn (.boot junk app) ops k) (a : Nat) :
    (∀ s ∈ k.allStreams, s.addr = a → s.state ≠ .synReceived →
        Happened (fun k op s => AckArrives k op s ∨ Closes k op s) (.boot junk app) ops a) ∧
      (∀ s ∈ k.allStreams, s.addr = a → s.state = .established →
        Happened AckArrives (.boot junk app) ops a) ∧
      (∀ s ∈ k.allStreams, s.addr = a → s.readOffset ≠ 0 →
        Happened DataArrives (.boot junk app) ops a) ∧
      ∀ chunk, TcpEvent.read a chunk ∈ k.log → Happened PshArrives (.boot junk app) ops a := by
  have start : ∀ P : Stream σ → Prop,
      ¬∃ s ∈ (Kernel.boot junk app).allStreams, s.addr = a ∧ P s := by
    rintro P ⟨s, hs, _⟩
    exact nomatch hs
  refine ⟨fun s hs haddr hleft => ?_, fun s hs haddr hest => ?_, fun s hs haddr hdata => ?_,
    fun chunk hread => ?_⟩
  · exact happened run (start fun s => s.state ≠ .synReceived) ⟨s, hs, haddr, hleft⟩
      fun _ _ _ wf h plain => leaves_synReceived wf h plain
  · exact happened run (start fun s => s.state = .established) ⟨s, hs, haddr, hest⟩
      fun _ _ _ wf h plain => enters_established wf h plain
  · exact happened run (start fun s => s.readOffset ≠ 0) ⟨s, hs, haddr, hdata⟩
      fun _ _ _ wf h plain => receives_data wf h plain
  · exact happened run (P := fun k => ∃ chunk, TcpEvent.read a chunk ∈ k.log)
      (fun ⟨_, hmem⟩ => nomatch hmem) ⟨chunk, hread⟩
      fun _ _ _ _ h plain => calls_readFn h plain

theorem handshake_gate_run : ∃ k : Kernel Unit,
    Transition.Run kernelStep PlainSyn (.boot (fun _ _ => 0) ())
      [.tcpListen 80 fun app => (app, fun app _ _ _ => (app, [])),
        .segment (peerSegment TcpFlag.syn 5 1 0 []),
        .segment (peerSegment TcpFlag.ack 5 2 2 [])] k ∧
      ∃ s ∈ k.allStreams, s.state = .established ∧
        Happened AckArrives (.boot (fun _ _ => 0) ())
          [.tcpListen 80 fun app => (app, fun app _ _ _ => (app, [])),
            .segment (peerSegment TcpFlag.syn 5 1 0 []),
            .segment (peerSegment TcpFlag.ack 5 2 2 [])] s.addr := by
  have hrun : Transition.check kernelStep PlainSyn
      (fun k => k.allStreams.any fun s => s.state == .established)
      (Kernel.boot (fun _ _ => 0) ())
      [.tcpListen 80 fun app => (app, fun app _ _ _ => (app, [])),
        .segment (peerSegment TcpFlag.syn 5 1 0 []),
        .segment (peerSegment TcpFlag.ack 5 2 2 [])] = true := by
    decide +kernel
  obtain ⟨k, run, hany⟩ := Transition.Run.of_check hrun
  obtain ⟨s, hs, hstate⟩ := List.any_eq_true.mp hany
  have hest := eq_of_beq hstate
  exact ⟨k, run, s, hs, hest, (handshake_gate _ () _ k run s.addr).2.1 s hs rfl hest⟩

/-! ## The end of a connection -/

section

variable {k k' : Kernel σ} {op : KernelOp σ} {s : Stream σ}

/-- A stream is removed from `LastAck` for `Ack`, and for nothing else. -/
theorem lastAck_removed_iff (wf : k.Wf) (h : kernelStep k op = .ok k') (hs : s ∈ k.allStreams)
    (hstate : s.state = .lastAck) :
    (∀ s' ∈ k'.allStreams, s'.addr ≠ s.addr) ↔ AckArrives k op s := by
  constructor
  · intro hgone
    cases kernelStep_fate wf h hs with
    | untouched hmem _ => exact absurd rfl (hgone s hmem)
    | called c _ _ hmem => exact absurd (s.afterCall_sameConn c).addr (hgone _ hmem)
    | kept s' _ _ hs' haddr => exact absurd haddr (hgone s' hs')
    | @removed g k₁ hmeets hremoved _ =>
        cases hremoved with
        | acked hack _ => exact ⟨g, hmeets, hack⟩
        | closed hpushed _ hwait =>
            have hreceive : (g.receive s).state = .lastAck := by
              unfold Segment.receive Segment.acknowledge
              split <;> split <;> simp [Stream.afterData, Stream.afterAck, hstate]
            obtain hsame | ⟨hfin, _⟩ := hpushed.state
            · cases (hsame.trans hreceive).symm.trans hwait
            · cases hfin.symm.trans hwait
  · rintro ⟨g, hmeets, hack⟩
    cases kernelStep_fate wf h hs with
    | untouched _ hnot => exact absurd hmeets (hnot g)
    | called c _ hnone _ => cases hnone.symm.trans hmeets.1
    | kept s' hmeets' hkept _ _ =>
        cases hmeets.1.symm.trans hmeets'.1
        cases hkept with
        | same hlast _ _ => exact absurd hstate (hlast hack)
        | last hlast _ _ _ => exact absurd hstate (hlast hack)
    | removed _ _ hgone => exact hgone

/-- The stream is in `FinWait2`, or gone already. -/
def Acknowledged (k : Kernel σ) (addr : Nat) : Prop :=
  ∀ s ∈ k.allStreams, s.addr = addr → s.state = .finWait2

/-- Unless the read function closes a stream again, `Psh` leaves its state alone. -/
theorem Pushed.state_of_not_closes {g : Segment} {s₁ : Stream σ} {k₁ k₂ : Kernel σ}
    (h : Pushed (g.has TcpFlag.psh) (g.receive s) k₁ s₁ k₂) (hmeets : Meets k op g s)
    (hclose : ¬(PshArrives k op s ∧ s.MayClose)) : s₁.state = (g.receive s).state := by
  obtain hsame | ⟨_, hpsh, hcloses⟩ := h.state
  · exact hsame
  · rw [(g.receive_sameConn s).readFn] at hcloses
    exact absurd ⟨⟨g, hmeets, hpsh⟩, hcloses⟩ hclose

/-- A stream gets from `FinWait1` to `FinWait2` for nothing else than `Ack`. -/
theorem finWait1_acknowledged (wf : k.Wf) (h : kernelStep k op = .ok k') (hs : s ∈ k.allStreams)
    (hstate : s.state = .finWait1) (hdone : Acknowledged k' s.addr) : AckArrives k op s := by
  have acked : ∀ {g s₁ k₁ k₂}, Meets k op g s →
      Pushed (g.has TcpFlag.psh) (g.receive s) k₁ s₁ k₂ → s₁.state = .finWait2 →
        AckArrives k op s := by
    intro g s₁ k₁ k₂ hmeets hpushed hwait
    refine ⟨g, hmeets, Bool.eq_true_of_not_eq_false fun hack => ?_⟩
    obtain hsame | ⟨hfin, _⟩ := hpushed.state
    · have hreceive := (receive_state_of_not_ack (s := s) hack).trans hstate
      exact nomatch (hsame.trans hreceive).symm.trans hwait
    · exact nomatch hfin.symm.trans hwait
  cases kernelStep_fate wf h hs with
  | untouched hmem _ => exact nomatch hstate.symm.trans (hdone s hmem rfl)
  | called c _ _ hmem =>
      have hcon := hdone _ hmem (s.afterCall_sameConn c).addr
      cases c with
      | tcpSend data sz => exact nomatch hstate.symm.trans hcon
      | tcpClose => exact nomatch hcon
  | kept s' hmeets hkept hs' haddr =>
      have hwait := hdone s' hs' haddr
      cases hkept with
      | same _ hpushed _ => exact acked hmeets hpushed hwait
      | last _ _ _ hlast => exact nomatch (congrArg Stream.state hlast).symm.trans hwait
  | removed hmeets hremoved _ =>
      cases hremoved with
      | acked hack _ => exact ⟨_, hmeets, hack⟩
      | closed hpushed _ hwait => exact acked hmeets hpushed hwait

/-- Every `Ack` takes a stream from `FinWait1` to `FinWait2`, unless its read function
closes it again. -/
theorem acknowledged_of_ack (wf : k.Wf) (h : kernelStep k op = .ok k') (hs : s ∈ k.allStreams)
    (hstate : s.state = .finWait1) (hclose : ¬(PshArrives k op s ∧ s.MayClose))
    (hack : AckArrives k op s) : Acknowledged k' s.addr := by
  obtain ⟨g, hmeets, hack⟩ := hack
  have hreceive : (g.receive s).state = .finWait2 := by
    rw [receive_state_of_ack hack, Stream.afterAck, hstate]
  cases kernelStep_fate wf h hs with
  | untouched _ hnot => exact absurd hmeets (hnot g)
  | called c _ hnone _ => cases hnone.symm.trans hmeets.1
  | kept s' hmeets' hkept hs' haddr =>
      cases hmeets.1.symm.trans hmeets'.1
      intro t ht htaddr
      obtain rfl := (wf.step h).unique.eq_of_key_eq ht hs' (htaddr.trans haddr.symm)
      cases hkept with
      | same _ hpushed _ => exact (hpushed.state_of_not_closes hmeets hclose).trans hreceive
      | last _ hpushed hest _ =>
          have hwait := (hpushed.state_of_not_closes hmeets hclose).trans hreceive
          cases hwait.symm.trans hest
  | removed _ _ hgone => exact fun t ht htaddr => absurd htaddr (hgone t ht)

end

/-- The number of an acknowledgement that completes a close need not cover the `Fin`: here
the `Fin` has sequence number 2 and the segment acknowledges 1. -/
theorem close_by_stale_ack : ∃ k k' : Kernel Unit,
    Transition.exec kernelStep (.boot (fun _ _ => 0) ())
      [.tcpListen 80 fun app => (app, fun app _ _ _ => (app, [])),
        .segment (peerSegment TcpFlag.syn 5 1 0 []),
        .segment (peerSegment TcpFlag.ack 5 2 2 []),
        .tcpClose 2] = .ok k ∧
      kernelStep k (.segment (peerSegment TcpFlag.ack 5 2 1 [])) = .ok k' ∧
      (∃ s ∈ k.allStreams, s.addr = 2 ∧ s.state = .finWait1 ∧ s.localSeq = 3) ∧
      ∃ s ∈ k'.allStreams, s.addr = 2 ∧ s.state = .finWait2 := by
  have hrun : Transition.check kernelStep (fun _ _ => True)
      (fun k =>
        (k.allStreams.any fun s => s.addr == 2 && s.state == .finWait1 && s.localSeq == 3) &&
          (kernelStep k (.segment (peerSegment TcpFlag.ack 5 2 1 []))).holds fun k' =>
            k'.allStreams.any fun s => s.addr == 2 && s.state == .finWait2)
      (Kernel.boot (fun _ _ => 0) ())
      [.tcpListen 80 fun app => (app, fun app _ _ _ => (app, [])),
        .segment (peerSegment TcpFlag.syn 5 1 0 []),
        .segment (peerSegment TcpFlag.ack 5 2 2 []),
        .tcpClose 2] = true := by
    decide +kernel
  obtain ⟨k, run, hcheck⟩ := Transition.Run.of_check hrun
  obtain ⟨hbefore, hstep⟩ := Bool.and_eq_true_iff.mp hcheck
  obtain ⟨k', hstep, hafter⟩ := Except.exists_of_holds hstep
  obtain ⟨s, hs, hcheck⟩ := List.any_eq_true.mp hbefore
  obtain ⟨s', hs', hcheck'⟩ := List.any_eq_true.mp hafter
  simp only [Bool.and_eq_true, beq_iff_eq, and_assoc] at hcheck hcheck'
  exact ⟨k, k', run.exec_eq, hstep, ⟨s, hs, hcheck⟩, s', hs', hcheck'⟩

/-- In every reachable state a step takes a stream from `FinWait1` to `FinWait2`, or
removes it from `LastAck`, only if it is a segment of the stream with `Ack`. Every such
segment does it, whatever its number, unless the read function closes the stream again. -/
theorem close_needs_ack (junk : Nat → ByteMem) (app : σ) (ops : List (KernelOp σ)) (k : Kernel σ)
    (run : Transition.exec kernelStep (.boot junk app) ops = .ok k) (op : KernelOp σ)
    (k' : Kernel σ) (h : kernelStep k op = .ok k') :
    ∀ s ∈ k.allStreams,
      (s.state = .lastAck →
        ((∀ s' ∈ k'.allStreams, s'.addr ≠ s.addr) ↔ AckArrives k op s)) ∧
      (s.state = .finWait1 →
        (Acknowledged k' s.addr → AckArrives k op s) ∧
          (AckArrives k op s → ¬(PshArrives k op s ∧ s.MayClose) → Acknowledged k' s.addr)) := by
  intro s hs
  have run : Transition.Run kernelStep (fun _ _ => True) (.boot junk app) ops k :=
    .of_exec run fun _ _ => trivial
  have wf : k.Wf := run.invariant (I := Kernel.Wf) (fun _ _ _ wf _ h => wf.step h)
    (boot_wf junk app)
  exact ⟨lastAck_removed_iff wf h hs, fun hstate =>
    ⟨finWait1_acknowledged wf h hs hstate,
      fun hack hclose => acknowledged_of_ack wf h hs hstate hclose hack⟩⟩

theorem close_needs_ack_run : ∃ k k' : Kernel Unit, ∃ s ∈ k.allStreams,
    Transition.exec kernelStep (.boot (fun _ _ => 0) ())
      [.tcpListen 80 fun app => (app, fun app _ _ _ => (app, [])),
        .segment (peerSegment TcpFlag.syn 5 1 0 []),
        .segment (peerSegment (TcpFlag.ack ||| TcpFlag.fin) 5 2 2 [])] = .ok k ∧
      kernelStep k (.segment (peerSegment TcpFlag.ack 5 3 3 [])) = .ok k' ∧
      s.state = .lastAck ∧
      ((∀ s' ∈ k'.allStreams, s'.addr ≠ s.addr) ↔
        AckArrives k (.segment (peerSegment TcpFlag.ack 5 3 3 [])) s) := by
  have hrun : Transition.check kernelStep (fun _ _ => True)
      (fun k => (k.allStreams.any fun s => s.state == .lastAck) &&
        (kernelStep k (.segment (peerSegment TcpFlag.ack 5 3 3 []))).holds fun _ => true)
      (Kernel.boot (fun _ _ => 0) ())
      [.tcpListen 80 fun app => (app, fun app _ _ _ => (app, [])),
        .segment (peerSegment TcpFlag.syn 5 1 0 []),
        .segment (peerSegment (TcpFlag.ack ||| TcpFlag.fin) 5 2 2 [])] = true := by
    decide +kernel
  obtain ⟨k, run, hcheck⟩ := Transition.Run.of_check hrun
  obtain ⟨hany, hstep⟩ := Bool.and_eq_true_iff.mp hcheck
  obtain ⟨k', hstep, _⟩ := Except.exists_of_holds hstep
  obtain ⟨s, hs, hstate⟩ := List.any_eq_true.mp hany
  have hlast := eq_of_beq hstate
  exact ⟨k, k', s, hs, run.exec_eq, hstep, hlast,
    (close_needs_ack _ () _ k run.exec_eq _ k' hstep s hs).1 hlast⟩

end BadOs
