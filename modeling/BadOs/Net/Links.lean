import BadOs.Data.Chain
import BadOs.Net.Serving

/-!
# The list of all streams with its pointers

`tcp_segment` once more, with `all_streams` and the `next` of each record. Here the list
in the kernel is the memory only: it says which record is at an address. The order of the
streams is that of the pointers, and the functions go through the list by them.
-/

namespace BadOs

variable {σ : Type}

/-- `all_streams`, and `next` of the record at an address; zero is the null pointer. -/
structure Links where
  allStreams : Nat
  next : Nat → Nat

/-- The record at an address. -/
def Kernel.record (k : Kernel σ) (p : Nat) : Except Trap (Stream σ) :=
  match k.allStreams.find? fun s => s.addr == p with
  | some s => .ok s
  | none => .error .useAfterFree

/-- The loops of `find` and `remove_stream`: from `p` on to the first record that passes
the test. -/
def walk (k : Kernel σ) (l : Links) (test : Stream σ → Bool) :
    (fuel : Nat) → (p : Nat) → Except Trap (Option (Stream σ))
  | 0, _ => .error .diverged
  | fuel + 1, p =>
      if p = 0 then .ok none
      else do
        let s ← k.record p
        if test s then return some s
        else walk k l test fuel (l.next p)

def findAt (dev : NetDevice) (src : BitVec 32) (hdr : TcpHdr) (k : Kernel σ) (l : Links) :
    Except Trap (Option (Stream σ)) :=
  walk k l (fun s => s.isFor dev src hdr) (k.allStreams.length + 1) l.allStreams

def removeStreamAt (s : Stream σ) (k : Kernel σ) (l : Links) : Except Trap (Kernel σ × Links) := do
  let before ← walk k l (fun b => l.next b.addr == s.addr) (k.allStreams.length + 1) l.allStreams
  let l := match before with
    | some b => { l with next := Function.update l.next b.addr (l.next s.addr) }
    | none => { l with allStreams := l.next s.addr }
  let k ← removeStream s k
  return (k, l)

def connectedAt (dev : NetDevice) (localPort remotePort : BitVec 16)
    (remoteAddr ackSeq : BitVec 32) (fn : TcpReadFn σ) (k : Kernel σ) (l : Links) :
    Except Trap (Kernel σ × Links) := do
  let s := newAddr k
  let k ← connected dev localPort remotePort remoteAddr ackSeq fn k
  return (k, { allStreams := s, next := Function.update l.next s l.allStreams })

def synAt (dev : NetDevice) (hdr : TcpHdr) (srcIp : BitVec 32) (k : Kernel σ) (l : Links) :
    Except Trap (Kernel σ × Links) :=
  match k.allListeners.find? fun l => l.port == ntos hdr.destPort with
  | none => do
      let k ← resetStream dev hdr srcIp k
      return (k, l)
  | some listener =>
      let (app, fn) := listener.accept k.app
      connectedAt dev (ntos hdr.destPort) (ntos hdr.srcPort) srcIp (ntol hdr.sequence) fn
        { k with app := app } l

def ackedAt (s : Stream σ) (hdr : TcpHdr) (k : Kernel σ) (l : Links) :
    Except Trap (Option (Stream σ) × Kernel σ × Links) := do
  let s := if s.pendingAck ≤ hdr.ack then { s with pendingAck := hdr.ack } else s
  let s := if s.state = .synReceived then { s with state := .established } else s
  let s := if s.state = .finWait1 then { s with state := .finWait2 } else s
  if s.state = .lastAck then do
    let (k, l) ← removeStreamAt s k l
    return (none, k, l)
  else return (some s, k, l)

def timeWaitAt (s : Stream σ) (k : Kernel σ) (l : Links) : Except Trap (Kernel σ × Links) :=
  removeStreamAt s k l

def finAt (dev : NetDevice) (p : Option (Stream σ)) (k : Kernel σ) (l : Links) :
    Except Trap (Option (Stream σ) × Kernel σ × Links) := do
  let s ← deref p
  if s.state = .finWait2 then do
    let (sb, n) ← ipSbuffAlloc sizeofTcpHdr k.net
    let s := { s with ackSeq := s.ackSeq + 1 }
    let (hdr, s) := headerFromStream s TcpFlag.ack
    let n ← sendSegment sb hdr (fun _ => 0) 0 s.remoteAddr dev n
    let s := { s with state := .timeWait }
    let (k, l) ← timeWaitAt s { k with net := n, log := k.log ++ [.segment s.addr hdr []] } l
    return (none, k, l)
  else if s.state = .established then do
    let (sb, n) ← ipSbuffAlloc sizeofTcpHdr k.net
    let s := { s with ackSeq := s.ackSeq + 1 }
    let (hdr, s) := headerFromStream s (TcpFlag.fin ||| TcpFlag.ack)
    let n ← sendSegment sb hdr (fun _ => 0) 0 s.remoteAddr dev n
    return (some { s with state := .lastAck },
      { k with net := n, log := k.log ++ [.segment s.addr hdr []] }, l)
  else return (some s, k, l)

def serveAt (dev : NetDevice) (data : ByteMem) (sz : BitVec 32) (s : Stream σ) (k : Kernel σ)
    (l : Links) : Except Trap (Kernel σ × Links) := do
  let hdr := TcpHdr.load data
  let (p, k, l) ← (if hdr.has TcpFlag.ack then ackedAt s hdr k l else .ok (some s, k, l))
  let p ← bufferData hdr data p (sz - 4 * hdr.offset.setWidth 32)
  let (p, k) ← (if hdr.has TcpFlag.psh then pushit p k else .ok (p, k))
  let (p, k, l) ← (if hdr.has TcpFlag.fin then finAt dev p k l else .ok (p, k, l))
  return (k.putStream p, l)

def tcpSegmentAt (dev : NetDevice) (data : ByteMem) (sz srcIp : BitVec 32) (k : Kernel σ)
    (l : Links) : Except Trap (Kernel σ × Links) := do
  let hdr := TcpHdr.load data
  let (k, l) ← (if hdr.has TcpFlag.syn then synAt dev hdr srcIp k l else .ok (k, l))
  match ← findAt dev srcIp hdr k l with
  | none => do
      let k ← resetStream dev hdr srcIp k
      return (k, l)
  | some s => serveAt dev data sz s k l

/-! ## The pointers follow the list -/

/-- The pointers go through the records in the order of the list, and end there. -/
def Links.Of (l : Links) (k : Kernel σ) : Prop :=
  Chain l.next l.allStreams (k.allStreams.map Stream.addr)

/-- The same result, with pointers for the list. -/
def LinksFor (k : Kernel σ) (r : Kernel σ × Links) : Prop := ∃ l : Links, l.Of k ∧ r = (k, l)

def LinksForSome (q : Option (Stream σ) × Kernel σ) (r : Option (Stream σ) × Kernel σ × Links) :
    Prop := ∃ l : Links, l.Of q.2 ∧ r = (q.1, q.2, l)

/-- The record in hand is one of the list. -/
def InHand (q : Option (Stream σ) × Kernel σ) : Prop :=
  ∀ s, q.1 = some s → s.addr ∈ q.2.allStreams.map Stream.addr

section

variable {k k' : Kernel σ} {l : Links} {s : Stream σ}

theorem Links.Of.unique (linked : l.Of k) : Keyed.Unique Stream.addr k.allStreams := linked.nodup

theorem Links.Of.congr (linked : l.Of k) (h : k'.allStreams = k.allStreams) : l.Of k' := by
  rw [Links.Of, h]
  exact linked

/-- Going through the pointers is going through the list. -/
theorem Links.Of.walk_eq (linked : l.Of k) (test : Stream σ → Bool) :
    walk k l test (k.allStreams.length + 1) l.allStreams = .ok (k.allStreams.find? test) := by
  have suffix : ∀ (rest : List (Stream σ)) p, (∀ s ∈ rest, s ∈ k.allStreams) →
      Chain l.next p (rest.map Stream.addr) →
      walk k l test (rest.length + 1) p = .ok (rest.find? test) := by
    intro rest
    induction rest with
    | nil =>
        rintro _ _ ⟨⟩
        rfl
    | cons s rest ih =>
        intro p hmem hchain
        obtain ⟨hs, hmem⟩ := List.forall_mem_cons.mp hmem
        obtain ⟨rfl, hne, hrest⟩ := hchain
        have hrecord : k.record s.addr = .ok s := by
          rw [Kernel.record, linked.unique.find?_key hs]
        rw [List.length_cons, walk, if_neg hne, hrecord]
        change (if test s = true then _ else _) = _
        by_cases htest : test s = true
        · rw [if_pos htest, List.find?_cons_of_pos htest]
          rfl
        · rw [if_neg htest, List.find?_cons_of_neg htest]
          exact ih _ hmem hrest
  exact suffix k.allStreams _ (fun s hs => hs) linked

theorem removeStreamAt_lockstep (linked : l.Of k) (hs : s.addr ∈ k.allStreams.map Stream.addr) :
    (removeStream s k).Lockstep LinksFor (removeStreamAt s k l) := by
  have hfind : ((k.allStreams.map Stream.addr).find? fun p => l.next p == s.addr) =
      (k.allStreams.find? fun b => l.next b.addr == s.addr).map Stream.addr := List.find?_map
  obtain ⟨hinner, hhead⟩ := linked.unlink hs
  refine .bind_right ⟨_, linked.walk_eq _, rfl⟩ ?_
  rintro _ rfl
  refine .bind_rest (.same (removeStream_post s k)) ?_
  rintro k' _ ⟨rfl, n, _, rfl⟩
  refine .ok ⟨_, ?_, rfl⟩
  unfold Links.Of
  rw [Keyed.map_key_erase]
  cases hbefore : k.allStreams.find? fun b => l.next b.addr == s.addr with
  | some b =>
      rw [hbefore] at hfind
      exact hinner b.addr hfind
  | none =>
      rw [hbefore] at hfind
      exact hhead hfind

/-- The three assignments to the state are one, as in `acked`. -/
theorem ackedAt_eq (s : Stream σ) (hdr : TcpHdr) (k : Kernel σ) (l : Links) :
    ackedAt s hdr k l =
      if s.state = .lastAck then do
        let (k, l) ← removeStreamAt (s.afterAck hdr) k l
        return (none, k, l)
      else return (some (s.afterAck hdr), k, l) := by
  have hpending : (if s.pendingAck ≤ hdr.ack then { s with pendingAck := hdr.ack } else s) =
      { s with pendingAck := if s.pendingAck ≤ hdr.ack then hdr.ack else s.pendingAck } := by
    split <;> rfl
  unfold ackedAt Stream.afterAck
  rw [hpending]
  cases hstate : s.state <;> simp

theorem ackedAt_lockstep (linked : l.Of k) (hs : s.addr ∈ k.allStreams.map Stream.addr)
    (hdr : TcpHdr) : (acked s hdr k).Lockstep LinksForSome (ackedAt s hdr k l) := by
  rw [acked_eq, ackedAt_eq]
  split
  · refine .bind (removeStreamAt_lockstep (s := s.afterAck hdr) linked hs) ?_
    rintro k' _ ⟨l', linked', rfl⟩
    exact .ok ⟨l', linked', rfl⟩
  · exact .ok ⟨l, linked, rfl⟩

theorem finAt_lockstep (linked : l.Of k) (hs : s.addr ∈ k.allStreams.map Stream.addr)
    (dev : NetDevice) : (fin dev (some s) k).Lockstep LinksForSome (finAt dev (some s) k l) := by
  change Except.Lockstep _ (if s.state = .finWait2 then _ else _)
    (if s.state = .finWait2 then _ else _)
  split
  · refine .bind (.same (Q := fun _ => True) fun _ _ => trivial) ?_
    rintro ⟨sb, n⟩ _ ⟨rfl, _⟩
    refine .bind (.same (Q := fun _ => True) fun _ _ => trivial) ?_
    rintro n₁ _ ⟨rfl, _⟩
    refine .bind (removeStreamAt_lockstep (linked.congr rfl) hs) ?_
    rintro k' _ ⟨l', linked', rfl⟩
    exact .ok ⟨l', linked', rfl⟩
  · split
    · refine .bind (.same (Q := fun _ => True) fun _ _ => trivial) ?_
      rintro ⟨sb, n⟩ _ ⟨rfl, _⟩
      refine .bind (.same (Q := fun _ => True) fun _ _ => trivial) ?_
      rintro n₁ _ ⟨rfl, _⟩
      exact .ok ⟨l, linked, rfl⟩
    · exact .ok ⟨l, linked, rfl⟩

theorem pushit_allStreams (s : Stream σ) (k : Kernel σ) :
    (pushit (some s) k).Post fun r => r.2.allStreams = k.allStreams ∧
      ∃ s', r.1 = some s' ∧ s'.addr = s.addr := by
  refine (pushit_post k (some s)).mono ?_
  rintro _ ⟨t, n, calls, ⟨⟩, _, _, rfl⟩
  exact ⟨rfl, _, rfl, (s.afterPush_sameConn calls).addr⟩

/-- Storing the record back changes no address. -/
theorem Links.Of.putStream (linked : l.Of k) (p : Option (Stream σ)) : l.Of (k.putStream p) := by
  cases p with
  | none => exact linked
  | some s =>
      change Chain l.next l.allStreams ((Keyed.replace Stream.addr s k.allStreams).map Stream.addr)
      rw [Keyed.map_key_replace]
      exact linked

theorem serveAt_lockstep (linked : l.Of k) (hs : s ∈ k.allStreams) (dev : NetDevice)
    (data : ByteMem) (sz : BitVec 32) :
    (serve dev data sz s k).Lockstep LinksFor (serveAt dev data sz s k l) := by
  have haddr : s.addr ∈ k.allStreams.map Stream.addr := List.mem_map_of_mem hs
  -- The record in hand is still in the list, or it is gone.
  have hacked : (if (TcpHdr.load data).has TcpFlag.ack = true then acked s (TcpHdr.load data) k
      else .ok (some s, k)).Lockstep (fun q r => LinksForSome q r ∧ InHand q)
      (if (TcpHdr.load data).has TcpFlag.ack = true then ackedAt s (TcpHdr.load data) k l
      else .ok (some s, k, l)) := by
    split
    · refine (ackedAt_lockstep linked haddr _).and_post ((acked_post s k _).mono ?_)
      rintro _ (⟨_, rfl⟩ | ⟨_, n, _, rfl⟩)
      · rintro _ ⟨⟩
        exact haddr
      · rintro _ ⟨⟩
    · refine .ok ⟨⟨l, linked, rfl⟩, ?_⟩
      rintro _ ⟨⟩
      exact haddr
  refine .bind hacked ?_
  rintro ⟨p, k₁⟩ _ ⟨⟨l₁, linked₁, rfl⟩, hin₁⟩
  refine .bind (.same (bufferData_post _ data p _)) ?_
  rintro p₂ _ ⟨rfl, hbuffer⟩
  have hin₂ : InHand (p₂, k₁) := by
    rintro t rfl
    obtain ⟨hsame, _⟩ | ⟨t', rfl, hdata, _⟩ := hbuffer
    · exact hin₁ t hsame.symm
    · cases hdata
      exact hin₁ t' rfl
  have hpushed : (if (TcpHdr.load data).has TcpFlag.psh = true then pushit p₂ k₁
      else .ok (p₂, k₁)).Post fun q => q.2.allStreams = k₁.allStreams ∧ InHand q := by
    split
    · cases p₂ with
      | none => exact .error
      | some t =>
          refine (pushit_allStreams t k₁).mono ?_
          rintro ⟨_, k₂⟩ ⟨hstreams, t', rfl, haddr⟩
          refine ⟨hstreams, ?_⟩
          rintro _ ⟨⟩
          rw [haddr, hstreams]
          exact hin₂ t rfl
    · exact .ok ⟨rfl, hin₂⟩
  refine .bind (.same hpushed) ?_
  rintro ⟨p₃, k₃⟩ _ ⟨rfl, hstreams, hin₃⟩
  have linked₃ : l₁.Of k₃ := linked₁.congr hstreams
  have hfin : (if (TcpHdr.load data).has TcpFlag.fin = true then fin dev p₃ k₃
      else .ok (p₃, k₃)).Lockstep LinksForSome
      (if (TcpHdr.load data).has TcpFlag.fin = true then finAt dev p₃ k₃ l₁
      else .ok (p₃, k₃, l₁)) := by
    split
    · cases p₃ with
      | none => exact .error _
      | some t => exact finAt_lockstep linked₃ (hin₃ t rfl) dev
    · exact .ok ⟨l₁, linked₃, rfl⟩
  refine .bind hfin ?_
  rintro ⟨p₄, k₄⟩ _ ⟨l₄, linked₄, rfl⟩
  exact .ok ⟨l₄, linked₄.putStream p₄, rfl⟩

/-- A new stream goes in front of the others. -/
theorem synAt_lockstep (wf : k.Wf) (linked : l.Of k) (dev : NetDevice) (hdr : TcpHdr)
    (srcIp : BitVec 32) :
    (syn dev hdr srcIp k).Lockstep LinksFor (synAt dev hdr srcIp k l) := by
  have hpost := syn_post k dev hdr srcIp
  unfold syn synAt at *
  cases hl : k.allListeners.find? fun l => l.port == ntos hdr.destPort with
  | none =>
      refine .bind_rest (.same (resetStream_post dev hdr srcIp k)) ?_
      rintro k' _ ⟨rfl, n, _, rfl⟩
      exact .ok ⟨l, linked.congr rfl, rfl⟩
  | some listener =>
      rw [hl] at hpost
      refine .bind_rest (.same hpost) ?_
      rintro k' _ ⟨rfl, n, _, ⟨hnone, _⟩ | ⟨listener', junk, hl', _, rfl⟩⟩
      · cases hnone
      · refine .ok ⟨_, ?_, rfl⟩
        refine Chain.push linked (Nat.succ_ne_zero _) fun hmem => ?_
        obtain ⟨s, hs, haddr⟩ := List.mem_map.mp hmem
        have hbelow : s.addr < k.net.next := wf.below s hs
        have hnew : s.addr = k.net.next + 1 := haddr
        omega

/-- The call of `tcp_segment` is the same with the pointers, and they follow the list. -/
theorem tcpSegmentAt_lockstep (wf : k.Wf) (linked : l.Of k) (dev : NetDevice) (data : ByteMem)
    (sz srcIp : BitVec 32) :
    (tcpSegment dev data sz srcIp k).Lockstep LinksFor (tcpSegmentAt dev data sz srcIp k l) := by
  have hsyn : (if (TcpHdr.load data).has TcpFlag.syn = true then
        syn dev (TcpHdr.load data) srcIp k else .ok k).Lockstep LinksFor
      (if (TcpHdr.load data).has TcpFlag.syn = true then synAt dev (TcpHdr.load data) srcIp k l
        else .ok (k, l)) := by
    split
    · exact synAt_lockstep wf linked dev _ srcIp
    · exact .ok ⟨l, linked, rfl⟩
  refine .bind hsyn ?_
  rintro k₁ _ ⟨l₁, linked₁, rfl⟩
  refine .bind_right ⟨_, linked₁.walk_eq _, rfl⟩ ?_
  rintro _ rfl
  change Except.Lockstep _ (match find dev srcIp (TcpHdr.load data) k₁.allStreams with
    | none => _ | some s => _) (match find dev srcIp (TcpHdr.load data) k₁.allStreams with
    | none => _ | some s => _)
  cases hfind : find dev srcIp (TcpHdr.load data) k₁.allStreams with
  | none =>
      refine .bind_rest (.same (resetStream_post dev _ srcIp k₁)) ?_
      rintro k' _ ⟨rfl, n, _, rfl⟩
      exact .ok ⟨l₁, linked₁.congr rfl, rfl⟩
  | some s => exact serveAt_lockstep linked₁ (List.mem_of_find?_eq_some hfind) dev data sz

end

end BadOs
