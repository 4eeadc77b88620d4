import BadOs.Common
import BadOs.Ports

/-!
# Receiving through the NE2000

The card stores frames in a ring of pages, from where it has the register `CURPAGE` on, and
reports them in `ISR`; frames arrive at any time. `ne2k_irq` takes the frames out, from the page
behind `BOUNDRY` on, and clears `ISR`. A port is its offset from `iomem`.
-/

namespace BadOs

/-! ## `ne2k.c` -/

abbrev rxStartPage : BitVec 8 := 0x4c

abbrev stopPage : BitVec 8 := 0x80

/-- The page behind `BOUNDRY`. -/
def pageAfter (boundry : BitVec 8) : BitVec 8 :=
  let frame := boundry + 1
  if frame = stopPage then rxStartPage else frame

/-- The loop over the words of a frame. A frame in the ring is much shorter than the 0xffff bytes
with which `s` would wrap. -/
def readWords : (left s : Nat) → ByteMem → PortProg Nat ByteMem
  | 0, _, buffer => pure buffer
  | left + 1, s, buffer => do
      let d ← inw 0x10
      let buffer := Function.update buffer (s + 1) ((d >>> 8).setWidth 8)
      let buffer := Function.update buffer s (d.setWidth 8)
      readWords left (s + 2) buffer

def readRest (size : BitVec 16) (buffer : ByteMem) : PortProg Nat ByteMem :=
  if size &&& 1 ≠ 0 then do
    let d ← inb 0x10
    return Function.update buffer (size - 1).toNat d
  else pure buffer

/-- The `while` loop; the result are the buffers that are enqueued for `dispatch`. There are not
more frames in the ring than pages. -/
def drain (rxpage : BitVec 8) :
    (fuel : Nat) → (frame : BitVec 8) → PortProg Nat (List (BitVec 16 × ByteMem))
  | 0, _ => .stuck
  | fuel + 1, frame =>
      if rxpage ≠ frame then do
        -- The header: status, next page and a count of two bytes.
        outb 0x0 0x22
        outb 0xa 4
        outb 0xb 0
        outb 0x8 0
        outb 0x9 frame
        outb 0x0 0x0a
        let val ← inl 0x10
        let next := val.extractLsb' 8 8
        let count := val.extractLsb' 16 16
        let size := count - 4
        outb 0x0 0x22
        outb 0x8 4
        outb 0xa (size.setWidth 8)
        outb 0xb ((count >>> 8).setWidth 8)
        let buffer ← readWords ((size.toNat + 1) / 2) 0 fun _ => 0
        let buffer ← readRest size buffer
        outb 0x3 (next - 1)
        let frames ← drain rxpage fuel next
        return (size, buffer) :: frames
      else pure []

/-- `RemoteDmaComplete` is acknowledged. -/
def ackDma (wtf : BitVec 8) : PortProg Nat Unit :=
  if wtf &&& 64 ≠ 0 then outb 0x7 64 else pure ()

/-- The branch for `PacketReceived`. -/
def receivePackets (wtf : BitVec 8) : PortProg Nat (List (BitVec 16 × ByteMem)) :=
  if wtf &&& 1 ≠ 0 then do
    outb 0x0 0x60
    let rxpage ← inb 0x7
    outb 0x0 0x22
    let boundry ← inb 0x3
    let frames ← drain rxpage 52 (pageAfter boundry)
    outb 0x7 1
    return frames
  else pure []

def ne2kIrq : PortProg Nat (List (BitVec 16 × ByteMem)) := do
  let wtf ← inb 0x7
  ackDma wtf
  let frames ← receivePackets wtf
  outb 0x0 0x22
  outb 0x7 0xff
  return frames

/-! ## The card -/

/-- The registers that matter, the memory of the card, and two fields for the record. In the
`window` a frame goes unnoticed: from the access of the handler that decides which frames it takes
out to the one that clears `ISR`. The last frame to arrive is `lost` if it came in that time. -/
structure Ne2k where
  page1 : Bool
  isr : BitVec 8
  curpage : BitVec 8
  boundry : BitVec 8
  rsar : BitVec 16
  mem : ByteMem
  window : Bool
  lost : Bool

namespace Ne2k

/-- `PacketReceived` is set. -/
def Received (n : Ne2k) : Prop := n.isr &&& 1 ≠ 0

instance (n : Ne2k) : Decidable n.Received := inferInstanceAs (Decidable (_ ≠ _))

/-- No frame is in the ring. -/
def Empty (n : Ne2k) : Prop := pageAfter n.boundry = n.curpage

instance (n : Ne2k) : Decidable n.Empty := inferInstanceAs (Decidable (_ = _))

/-- The number of pages in use. -/
def used (n : Ne2k) : Nat := (n.curpage.toNat + 52 - (pageAfter n.boundry).toNat) % 52

/-- The address of the remote DMA goes on, and around at the end of the ring. -/
def advance (k : BitVec 16) (n : Ne2k) : Ne2k :=
  { n with rsar := if n.rsar + k = 0x8000 then 0x4c00 else n.rsar + k }

/-- Registers 3 and 7 are others on page 1. -/
def inb (off : Nat) (n : Ne2k) : BitVec 8 × Ne2k :=
  match off with
  | 0x3 => (if n.page1 then 0 else n.boundry, n)
  | 0x7 =>
      if n.page1 then (n.curpage, { n with window := true })
      else (n.isr, { n with window := n.window || n.isr &&& 1 == 0 })
  | 0x10 => (n.mem n.rsar.toNat, n.advance 1)
  | _ => (0, n)

/-- A 1 that is written to a bit of `ISR` clears the bit. -/
def outb (off : Nat) (v : BitVec 8) (n : Ne2k) : Ne2k :=
  match off with
  | 0x0 => { n with page1 := v &&& 0xc0 == 0x40 }
  | 0x3 => if n.page1 then n else { n with boundry := v }
  | 0x7 =>
      if n.page1 then { n with curpage := v }
      else { n with isr := n.isr &&& ~~~v, window := n.window && v != 0xff }
  | 0x8 => if n.page1 then n else { n with rsar := n.rsar.extractLsb' 8 8 ++ v }
  | 0x9 => if n.page1 then n else { n with rsar := v ++ n.rsar.extractLsb' 0 8 }
  | _ => n

def respond : (a : PortAccess Nat) → Ne2k → a.Answer × Ne2k
  | .inb off, n => n.inb off
  | .inw _, n => (n.mem.read n.rsar.toNat 2, n.advance 2)
  | .inl _, n => (n.mem.read n.rsar.toNat 4, n.advance 4)
  | .outb off v, n => ((), n.outb off v)

/-- What the card does by itself: a frame of `size` bytes arrives, or other bits of `ISR` are
set. -/
inductive Event where
  | frame (size : Nat) (content : ByteMem)
  | other (bits : BitVec 8)

/-- The page where the frame behind one of `pages` pages starts. -/
def nextPage (n : Ne2k) (pages : Nat) : BitVec 8 :=
  let next := n.curpage.toNat + pages
  BitVec.ofNat 8 (if 0x80 ≤ next then next - 52 else next)

/-- The header with status, next page and count, and the frame behind it. -/
def stored (n : Ne2k) (size pages : Nat) (content : ByteMem) : ByteMem := fun a =>
  let start := n.curpage.toNat
  if a = start * 256 + 1 then n.nextPage pages
  else if a = start * 256 + 2 then BitVec.ofNat 8 (size + 4)
  else if a = start * 256 + 3 then BitVec.ofNat 8 ((size + 4) / 256)
  else if 0x4c ≤ a / 256 ∧ a / 256 < 0x80 ∧ (a / 256 + 52 - start) % 52 < pages then content a
  else n.mem a

/-- A frame that does not fit is dropped. -/
def event : Event → Ne2k → Ne2k
  | .frame size content, n =>
      let pages := (size + 4 + 255) / 256
      if n.used + pages < 52 then
        { n with
          isr := n.isr ||| 1
          curpage := n.nextPage pages
          mem := n.stored size pages content
          lost := n.window }
      else n
  | .other bits, n => { n with isr := n.isr ||| bits &&& 0xfe }

/-- After `initialize`. -/
def init : Ne2k := ⟨false, 0, rxStartPage, stopPage - 1, 0, fun _ => 0, false, false⟩

def device : Device (PortAccess Nat) PortAccess.Answer Ne2k where
  respond := respond
  event n n' := ∃ e, n' = n.event e

end Ne2k

/-! ## The handler and the card -/

inductive IrqOp where
  | event (e : Ne2k.Event)
  | interrupt
  | access

/-- The card, what is left of the handler if it runs, and the frames for `dispatch`. -/
structure IrqState where
  card : Ne2k
  handler : Option (PortProg Nat (List (BitVec 16 × ByteMem)))
  queued : List (BitVec 16 × ByteMem)

/-- An interrupt may come for any reason when the handler does not run. The last step of the
handler is its return. -/
def ne2kStep (s : IrqState) : IrqOp → Except Trap IrqState
  | .event e => .ok { s with card := s.card.event e }
  | .interrupt =>
      match s.handler with
      | none => .ok { s with handler := some ne2kIrq }
      | some _ => .ok s
  | .access =>
      match s.handler with
      | none => .ok s
      | some (.ret frames) => .ok { s with handler := none, queued := s.queued ++ frames }
      | some .stuck => .error .diverged
      | some (.access a next) =>
          let (r, card) := s.card.respond a
          .ok { s with card := card, handler := some (next r) }

/-! ## Pages -/

/-- The pages of the ring, in a row without an end. -/
def page (i : Nat) : BitVec 8 := BitVec.ofNat 8 (0x4c + i % 52)

theorem toNat_page (i : Nat) : (page i).toNat = 0x4c + i % 52 := by
  have hlt : i % 52 < 52 := Nat.mod_lt i (by decide)
  unfold page
  rw [BitVec.toNat_ofNat]
  omega

theorem page_eq_iff {i j : Nat} : page i = page j ↔ i % 52 = j % 52 := by
  constructor
  · intro h
    have hnat := congrArg BitVec.toNat h
    rw [toNat_page, toNat_page] at hnat
    omega
  · intro h
    unfold page
    rw [h]

theorem page_of_toNat {v : BitVec 8} {i : Nat} (h : v.toNat = 0x4c + i % 52) : v = page i :=
  BitVec.eq_of_toNat_eq (h.trans (toNat_page i).symm)

/-- What is written to `BOUNDRY` before the first page of the ring is no page of it. -/
theorem pageAfter_sub_one (i : Nat) : pageAfter (page i - 1) = page i := by
  have hne : page i ≠ stopPage := by
    intro heq
    have hnat := congrArg BitVec.toNat heq
    rw [toNat_page] at hnat
    have hstop : stopPage.toNat = 128 := rfl
    omega
  unfold pageAfter
  rw [BitVec.sub_add_cancel, if_neg hne]

/-- The headers of frames with these numbers of pages, from the page `r` on. -/
def LinkedFrames (m : ByteMem) : Nat → List Nat → Prop
  | _, [] => True
  | r, p :: ps => m ((page r).toNat * 256 + 1) = page (r + p) ∧ LinkedFrames m (r + p) ps

namespace LinkedFrames

variable {m m' : ByteMem} {r p : Nat} {ps : List Nat}

theorem congr (h : LinkedFrames m r ps)
    (same : ∀ i, r ≤ i → i < r + ps.sum →
      m' ((page i).toNat * 256 + 1) = m ((page i).toNat * 256 + 1))
    (pos : ∀ p ∈ ps, 0 < p) : LinkedFrames m' r ps := by
  induction ps generalizing r with
  | nil => trivial
  | cons p ps ih =>
      obtain ⟨hp, hps⟩ := List.forall_mem_cons.mp pos
      rw [List.sum_cons] at same
      refine ⟨(same r (Nat.le_refl r) (by omega)).trans h.1, ih h.2 (fun i hlo hhi => ?_) hps⟩
      exact same i (by omega) (by omega)

theorem append (h : LinkedFrames m r ps)
    (hlast : m ((page (r + ps.sum)).toNat * 256 + 1) = page (r + ps.sum + p)) :
    LinkedFrames m r (ps ++ [p]) := by
  induction ps generalizing r with
  | nil => exact ⟨hlast, trivial⟩
  | cons q ps ih =>
      rw [List.sum_cons, ← Nat.add_assoc] at hlast
      exact ⟨h.1, ih h.2 hlast⟩

end LinkedFrames

namespace Ne2k

/-- The ring holds frames with these numbers of pages, the first one at page `r`. -/
structure Ring (n : Ne2k) (r : Nat) (ps : List Nat) : Prop where
  boundry : pageAfter n.boundry = page r
  curpage : n.curpage = page (r + ps.sum)
  pos : ∀ p ∈ ps, 0 < p
  fits : ps.sum < 52
  linked : LinkedFrames n.mem r ps

variable {n n' : Ne2k} {r : Nat} {ps : List Nat}

theorem Ring.used (h : n.Ring r ps) : n.used = ps.sum := by
  have hfits := h.fits
  unfold Ne2k.used
  rw [h.curpage, h.boundry, toNat_page, toNat_page]
  omega

theorem sum_eq_zero_iff (pos : ∀ p ∈ ps, 0 < p) : ps.sum = 0 ↔ ps = [] := by
  cases ps with
  | nil => exact ⟨fun _ => rfl, fun _ => rfl⟩
  | cons p ps =>
      have hp := pos p List.mem_cons_self
      rw [List.sum_cons]
      exact ⟨fun h => absurd h (by omega), fun h => nomatch h⟩

theorem Ring.empty_iff (h : n.Ring r ps) : n.Empty ↔ ps = [] := by
  have hfits := h.fits
  unfold Empty
  rw [h.boundry, h.curpage, page_eq_iff, ← sum_eq_zero_iff h.pos]
  omega

/-- The registers and the memory that the ring is in. -/
theorem Ring.congr (h : n.Ring r ps) (hboundry : n'.boundry = n.boundry)
    (hcurpage : n'.curpage = n.curpage) (hmem : n'.mem = n.mem) : n'.Ring r ps :=
  ⟨hboundry ▸ h.boundry, hcurpage ▸ h.curpage, h.pos, h.fits, hmem ▸ h.linked⟩

theorem nextPage_eq (h : n.Ring r ps) (pages : Nat) (hpages : pages < 52) :
    n.nextPage pages = page (r + ps.sum + pages) := by
  have hcurpage := congrArg BitVec.toNat h.curpage
  rw [toNat_page] at hcurpage
  refine page_of_toNat ?_
  unfold nextPage
  rw [hcurpage, BitVec.toNat_ofNat]
  split <;> omega

/-- The header of a new frame is not in the pages of the others. -/
theorem stored_header (h : n.Ring r ps) {size pages : Nat} (hfits : ps.sum + pages < 52)
    (content : ByteMem) {i : Nat} (hlo : r ≤ i) (hhi : i < r + ps.sum) :
    n.stored size pages content ((page i).toNat * 256 + 1) = n.mem ((page i).toNat * 256 + 1) := by
  have hcurpage := congrArg BitVec.toNat h.curpage
  rw [toNat_page] at hcurpage
  unfold stored
  dsimp only
  rw [hcurpage, toNat_page]
  rw [if_neg (by omega), if_neg (by omega), if_neg (by omega), if_neg (by omega)]

/-- A frame arrives. -/
theorem Ring.frame (h : n.Ring r ps) (size : Nat) (content : ByteMem)
    (hfits : n.used + (size + 4 + 255) / 256 < 52) :
    (n.event (.frame size content)).Ring r (ps ++ [(size + 4 + 255) / 256]) := by
  have hpages : 0 < (size + 4 + 255) / 256 := by omega
  have hused := h.used
  have hevent : n.event (.frame size content) = { n with
      isr := n.isr ||| 1
      curpage := n.nextPage ((size + 4 + 255) / 256)
      mem := n.stored size ((size + 4 + 255) / 256) content
      lost := n.window } := if_pos hfits
  rw [hevent]
  generalize (size + 4 + 255) / 256 = pages at *
  have hnext := nextPage_eq h pages (by omega)
  refine ⟨h.boundry, ?_, ?_, ?_, ?_⟩
  · rw [List.sum_append, List.sum_singleton, ← Nat.add_assoc]
    exact hnext
  · intro p hp
    obtain hp | hp := List.mem_append.mp hp
    · exact h.pos p hp
    · exact List.mem_singleton.mp hp ▸ hpages
  · rw [List.sum_append, List.sum_singleton]
    omega
  · refine LinkedFrames.append (h.linked.congr (fun i hlo hhi => ?_) h.pos) ?_
    · exact stored_header h (by omega) content hlo hhi
    · have hstart : (page (r + ps.sum)).toNat = n.curpage.toNat := congrArg _ h.curpage.symm
      show n.stored size pages content _ = _
      rw [hstart]
      exact (if_pos rfl).trans hnext

/-! ## Assertions -/

theorem received_or_one (isr : BitVec 8) : (isr ||| 1) &&& 1 ≠ 0 := by
  intro h
  have hbit := congrArg (BitVec.getLsbD · 0) h
  simp at hbit

theorem received_or_other (isr bits : BitVec 8) : (isr ||| bits &&& 0xfe) &&& 1 = isr &&& 1 := by
  ext i hi
  simp only [BitVec.getElem_and, BitVec.getElem_or]
  obtain rfl | hpos := Nat.eq_zero_or_pos i
  · simp
  · have hone : (1 : BitVec 8)[i] = false := by
      simp [BitVec.getElem_one, hpos.ne']
    rw [hone, Bool.and_false, Bool.and_false]

/-- What the card does by itself, on a ring. -/
theorem event_cases (h : n.Ring r ps) (e : Event) :
    ((n.event e).page1 = n.page1 ∧ (n.event e).window = n.window ∧ (n.event e).rsar = n.rsar) ∧
      ((n.event e).Ring r ps ∧ ((n.event e).Received ↔ n.Received) ∧ (n.event e).lost = n.lost ∨
        ∃ p, (n.event e).Ring r (ps ++ [p]) ∧ (n.event e).Received ∧
          (n.event e).lost = n.window) := by
  cases e with
  | frame size content =>
      by_cases hfits : n.used + (size + 4 + 255) / 256 < 52
      · have hring := h.frame size content hfits
        rw [show n.event (.frame size content) = _ from if_pos hfits] at hring ⊢
        exact ⟨⟨rfl, rfl, rfl⟩, Or.inr ⟨_, hring, received_or_one n.isr, rfl⟩⟩
      · rw [show n.event (.frame size content) = n from if_neg hfits]
        exact ⟨⟨rfl, rfl, rfl⟩, Or.inl ⟨h, Iff.rfl, rfl⟩⟩
  | other bits =>
      refine ⟨⟨rfl, rfl, rfl⟩, Or.inl ⟨h.congr rfl rfl rfl, ?_, rfl⟩⟩
      show (n.isr ||| bits &&& 0xfe) &&& 1 ≠ 0 ↔ _
      rw [received_or_other]
      rfl

/-- When the handler does not run: frames that are in the ring are reported, unless the last one
was lost. -/
structure Idle (n : Ne2k) : Prop where
  page1 : n.page1 = false
  window : n.window = false
  ring : ∃ r ps, n.Ring r ps ∧ (n.lost = true → ps ≠ [] ∧ ¬n.Received) ∧
    (n.lost = false → ps = [] ∨ n.Received)

/-- The handler has seen `PacketReceived`. -/
structure Seen (page1 : Bool) (n : Ne2k) : Prop where
  page1 : n.page1 = page1
  window : n.window = false
  lost : n.lost = false
  ring : ∃ r ps, n.Ring r ps

/-- The frames `ps` will be taken out, up to the page that was read, and those of `qs` not. -/
structure Draining (page1 : Bool) (rxpage : BitVec 8) (n : Ne2k) : Prop where
  page1 : n.page1 = page1
  window : n.window = true
  ring : ∃ r ps qs, n.Ring r (ps ++ qs) ∧ rxpage = page (r + ps.sum) ∧ (n.lost = true ↔ qs ≠ [])

/-- The next one of at most `k` frames starts at `frame`. -/
structure Taking (rxpage frame : BitVec 8) (k : Nat) (n : Ne2k) : Prop where
  page1 : n.page1 = false
  window : n.window = true
  ring : ∃ r ps qs, n.Ring r (ps ++ qs) ∧ frame = page r ∧ rxpage = page (r + ps.sum) ∧
    ps.length ≤ k ∧ (n.lost = true ↔ qs ≠ [])

/-- The header of a frame has been read. -/
structure Copying (rxpage next : BitVec 8) (k : Nat) (n : Ne2k) : Prop where
  page1 : n.page1 = false
  window : n.window = true
  ring : ∃ r p ps qs, n.Ring r (p :: ps ++ qs) ∧ next = page (r + p) ∧
    rxpage = page (r + p + ps.sum) ∧ ps.length ≤ k ∧ (n.lost = true ↔ qs ≠ [])

/-- The frames that are left came too late. -/
structure Drained (n : Ne2k) : Prop where
  page1 : n.page1 = false
  window : n.window = true
  ring : ∃ r qs, n.Ring r qs ∧ (n.lost = true ↔ qs ≠ [])

theorem event_lost (n : Ne2k) {e : Event} (h : n.lost = false)
    (timely : ∀ size content, e = .frame size content → n.window = false) :
    (n.event e).lost = false := by
  cases e with
  | frame size content =>
      unfold event
      dsimp only
      split
      · exact timely size content rfl
      · exact h
  | other bits => exact h

theorem respond_lost (n : Ne2k) (a : PortAccess Nat) : (n.respond a).2.lost = n.lost := by
  cases a with
  | inb off =>
      unfold respond inb
      dsimp only
      split
      · rfl
      · split <;> rfl
      · rfl
      · rfl
  | inw off => rfl
  | inl off => rfl
  | outb off v =>
      unfold respond outb
      dsimp only
      split
      · rfl
      all_goals first | rfl | (split <;> rfl)

theorem idle_stable : device.Stable Idle := by
  rintro n _ ⟨hpage, hwindow, r, ps, hring, hlost, hkept⟩ ⟨e, rfl⟩
  obtain ⟨⟨hpage', hwindow', _⟩, hcases⟩ := event_cases hring e
  refine ⟨hpage'.trans hpage, hwindow'.trans hwindow, ?_⟩
  obtain ⟨hring', hreceived, hlost'⟩ | ⟨p, hring', hreceived, hlost'⟩ := hcases
  · refine ⟨r, ps, hring', ?_, ?_⟩
    · rw [hlost', hreceived]
      exact hlost
    · rw [hlost', hreceived]
      exact hkept
  · refine ⟨r, ps ++ [p], hring', fun h => ?_, fun _ => Or.inr hreceived⟩
    rw [hlost', hwindow] at h
    cases h

theorem seen_stable (page1 : Bool) : device.Stable (Seen page1) := by
  rintro n _ ⟨hpage, hwindow, hlost, r, ps, hring⟩ ⟨e, rfl⟩
  obtain ⟨⟨hpage', hwindow', _⟩, hcases⟩ := event_cases hring e
  refine ⟨hpage'.trans hpage, hwindow'.trans hwindow, ?_, ?_⟩
  · obtain ⟨_, _, hlost'⟩ | ⟨_, _, _, hlost'⟩ := hcases
    · exact hlost'.trans hlost
    · exact hlost'.trans hwindow
  · obtain ⟨hring', _⟩ | ⟨p, hring', _⟩ := hcases
    · exact ⟨r, ps, hring'⟩
    · exact ⟨r, ps ++ [p], hring'⟩

/-- Frames that come in the window are behind the others. -/
theorem late_cases {qs : List Nat} (h : n.Ring r (ps ++ qs)) (hwindow : n.window = true)
    (hlost : n.lost = true ↔ qs ≠ []) (e : Event) :
    (n.event e).page1 = n.page1 ∧ (n.event e).window = true ∧ (n.event e).rsar = n.rsar ∧
      ∃ qs', (n.event e).Ring r (ps ++ qs') ∧ ((n.event e).lost = true ↔ qs' ≠ []) := by
  obtain ⟨⟨hpage', hwindow', hrsar⟩, hcases⟩ := event_cases h e
  refine ⟨hpage', hwindow'.trans hwindow, hrsar, ?_⟩
  obtain ⟨hring, _, hlost'⟩ | ⟨p, hring, _, hlost'⟩ := hcases
  · exact ⟨qs, hring, hlost' ▸ hlost⟩
  · rw [List.append_assoc] at hring
    refine ⟨qs ++ [p], hring, fun _ => ?_, fun _ => hlost'.trans hwindow⟩
    exact List.append_ne_nil_of_right_ne_nil _ (List.cons_ne_nil _ _)

theorem draining_stable (page1 : Bool) (rxpage : BitVec 8) :
    device.Stable (Draining page1 rxpage) := by
  rintro n _ ⟨hpage, hwindow, r, ps, qs, hring, hrx, hlost⟩ ⟨e, rfl⟩
  obtain ⟨hpage', hwindow', _, qs', hring', hlost'⟩ := late_cases hring hwindow hlost e
  exact ⟨hpage'.trans hpage, hwindow', r, ps, qs', hring', hrx, hlost'⟩

theorem taking_stable (rxpage frame : BitVec 8) (k : Nat) :
    device.Stable (Taking rxpage frame k) := by
  rintro n _ ⟨hpage, hwindow, r, ps, qs, hring, hframe, hrx, hk, hlost⟩ ⟨e, rfl⟩
  obtain ⟨hpage', hwindow', _, qs', hring', hlost'⟩ := late_cases hring hwindow hlost e
  exact ⟨hpage'.trans hpage, hwindow', r, ps, qs', hring', hframe, hrx, hk, hlost'⟩

theorem copying_stable (rxpage next : BitVec 8) (k : Nat) :
    device.Stable (Copying rxpage next k) := by
  rintro n _ ⟨hpage, hwindow, r, p, ps, qs, hring, hnext, hrx, hk, hlost⟩ ⟨e, rfl⟩
  obtain ⟨hpage', hwindow', _, qs', hring', hlost'⟩ := late_cases hring hwindow hlost e
  exact ⟨hpage'.trans hpage, hwindow', r, p, ps, qs', hring', hnext, hrx, hk, hlost'⟩

theorem drained_stable : device.Stable Drained := by
  rintro n _ ⟨hpage, hwindow, r, qs, hring, hlost⟩ ⟨e, rfl⟩
  have hlate : n.Ring r ([] ++ qs) := hring
  obtain ⟨hpage', hwindow', _, qs', hring', hlost'⟩ := late_cases hlate hwindow hlost e
  exact ⟨hpage'.trans hpage, hwindow', r, qs', hring', hlost'⟩

/-! ## The handler -/

/-- A rule for registers other than `BOUNDRY` and `ISR`. -/
theorem outb_triple {P Q : Ne2k → Prop} {off : Nat} {v : BitVec 8} (stable : device.Stable P)
    (stable' : device.Stable Q) (h : ∀ n, P n → Q (n.outb off v)) :
    device.Triple P (BadOs.outb off v) fun _ => Q :=
  .call stable (fun _ => stable') h

theorem inb_triple {P : Ne2k → Prop} {Q : BitVec 8 → Ne2k → Prop} {off : Nat}
    (stable : device.Stable P) (stable' : ∀ v, device.Stable (Q v))
    (h : ∀ n, P n → Q (n.inb off).1 (n.inb off).2) :
    device.Triple P (BadOs.inb off) Q :=
  .call stable stable' h

/-- Only the address of the remote DMA differs, and the page is 0. -/
structure SameRing (n n' : Ne2k) : Prop where
  page1 : n'.page1 = false
  window : n'.window = n.window
  lost : n'.lost = n.lost
  boundry : n'.boundry = n.boundry
  curpage : n'.curpage = n.curpage
  mem : n'.mem = n.mem

theorem SameRing.ring {n n' : Ne2k} (h : n.SameRing n') {r : Nat} {ps : List Nat}
    (hring : n.Ring r ps) : n'.Ring r ps := hring.congr h.boundry h.curpage h.mem

theorem Taking.congr {rxpage frame : BitVec 8} {k : Nat} (h : n.Taking rxpage frame k)
    (same : n.SameRing n') : n'.Taking rxpage frame k := by
  obtain ⟨_, hwindow, r, ps, qs, hring, hframe, hrx, hk, hlost⟩ := h
  exact ⟨same.page1, same.window.trans hwindow, r, ps, qs, same.ring hring, hframe, hrx, hk,
    same.lost ▸ hlost⟩

theorem Copying.congr {rxpage next : BitVec 8} {k : Nat} (h : n.Copying rxpage next k)
    (same : n.SameRing n') : n'.Copying rxpage next k := by
  obtain ⟨_, hwindow, r, p, ps, qs, hring, hnext, hrx, hk, hlost⟩ := h
  exact ⟨same.page1, same.window.trans hwindow, r, p, ps, qs, same.ring hring, hnext, hrx, hk,
    same.lost ▸ hlost⟩

/-- Writes on page 0 that set up the remote DMA. -/
theorem outb_sameRing (hpage : n.page1 = false) {off : Nat} {v : BitVec 8}
    (hoff : off ≠ 0x3 ∧ off ≠ 0x7) (hv : off = 0x0 → v &&& 0xc0 ≠ 0x40) :
    n.SameRing (n.outb off v) := by
  unfold outb
  split
  · exact ⟨beq_eq_false_iff_ne.mpr (hv rfl), rfl, rfl, rfl, rfl, rfl⟩
  · exact absurd rfl hoff.1
  · exact absurd rfl hoff.2
  · rw [hpage]
    exact ⟨rfl, rfl, rfl, rfl, rfl, rfl⟩
  · rw [hpage]
    exact ⟨rfl, rfl, rfl, rfl, rfl, rfl⟩
  · exact ⟨hpage, rfl, rfl, rfl, rfl, rfl⟩

theorem advance_sameRing (hpage : n.page1 = false) (k : BitVec 16) : n.SameRing (n.advance k) :=
  ⟨hpage, rfl, rfl, rfl, rfl, rfl⟩

theorem event_rsar (n : Ne2k) (e : Event) : (n.event e).rsar = n.rsar := by
  cases e with
  | frame size content =>
      unfold event
      dsimp only
      split <;> rfl
  | other bits => rfl

theorem stable_and_rsar {P : Ne2k → Prop} (stable : device.Stable P) (f : BitVec 16 → Prop) :
    device.Stable fun n => P n ∧ f n.rsar := by
  rintro n _ ⟨hP, hf⟩ ⟨e, rfl⟩
  exact ⟨stable n _ hP ⟨e, rfl⟩, (event_rsar n e).symm ▸ hf⟩

theorem toNat_append_zero (v : BitVec 8) : (v ++ (0 : BitVec 8)).toNat = v.toNat * 256 := by
  rw [BitVec.toNat_append, Nat.shiftLeft_eq]
  exact Nat.or_zero _

section

variable {rxpage frame next : BitVec 8} {k : Nat}

/-- Another frame is to be taken out. -/
theorem Taking.read (h : n.Taking rxpage frame (k + 1)) (hne : rxpage ≠ frame)
    (hrsar : n.rsar = frame ++ (0 : BitVec 8)) :
    (n.advance 4).Copying rxpage ((n.mem.read n.rsar.toNat 4).extractLsb' 8 8) k := by
  obtain ⟨hpage, hwindow, r, ps, qs, hring, hframe, hrx, hk, hlost⟩ := h
  cases ps with
  | nil => exact absurd (hrx.trans hframe.symm) hne
  | cons p ps =>
      have hnext (a : Nat) : (n.mem.read a 4).extractLsb' 8 8 = n.mem (a + 1) :=
        ByteMem.extractLsb'_read n.mem a (j := 1) (by decide)
      rw [hrsar, hnext, toNat_append_zero, hframe]
      refine ⟨hpage, hwindow, r, p, ps, qs, hring.congr rfl rfl rfl, hring.linked.1, ?_,
        Nat.le_of_succ_le_succ hk, hlost⟩
      rw [hrx, List.sum_cons, Nat.add_assoc]

/-- The frame is given back. -/
theorem Copying.giveBack (h : n.Copying rxpage next k) :
    (n.outb 0x3 (next - 1)).Taking rxpage next k := by
  obtain ⟨hpage, hwindow, r, p, ps, qs, hring, hnext, hrx, hk, hlost⟩ := h
  have hout : n.outb 0x3 (next - 1) = { n with boundry := next - 1 } := by
    show (if n.page1 = true then n else _) = _
    rw [hpage]
    rfl
  have hsum : (p :: (ps ++ qs)).sum = p + (ps ++ qs).sum := List.sum_cons
  have hfits := hring.fits
  have hcurpage := hring.curpage
  rw [List.cons_append, hsum] at hfits hcurpage
  rw [hout]
  refine ⟨hpage, hwindow, r + p, ps, qs, ⟨?_, ?_, ?_, ?_, hring.linked.2⟩, hnext, hrx, hk, hlost⟩
  · show pageAfter (next - 1) = _
    rw [hnext]
    exact pageAfter_sub_one (r + p)
  · rw [Nat.add_assoc]
    exact hcurpage
  · exact fun q hq => hring.pos q (List.mem_cons_of_mem p hq)
  · omega

theorem taking_outb {off : Nat} {v : BitVec 8} (hoff : off ≠ 0x3 ∧ off ≠ 0x7)
    (hv : off = 0x0 → v &&& 0xc0 ≠ 0x40) :
    device.Triple (Taking rxpage frame k) (BadOs.outb off v) fun _ => Taking rxpage frame k :=
  outb_triple (taking_stable rxpage frame k) (taking_stable rxpage frame k) fun _ h =>
    h.congr (outb_sameRing h.page1 hoff hv)

theorem copying_outb {off : Nat} {v : BitVec 8} (hoff : off ≠ 0x3 ∧ off ≠ 0x7)
    (hv : off = 0x0 → v &&& 0xc0 ≠ 0x40) :
    device.Triple (Copying rxpage next k) (BadOs.outb off v) fun _ => Copying rxpage next k :=
  outb_triple (copying_stable rxpage next k) (copying_stable rxpage next k) fun _ h =>
    h.congr (outb_sameRing h.page1 hoff hv)

theorem readWords_triple (left s : Nat) (buffer : ByteMem) :
    device.Triple (Copying rxpage next k) (readWords left s buffer) fun _ =>
      Copying rxpage next k := by
  have stable := copying_stable rxpage next k
  induction left generalizing s buffer with
  | zero => exact .ret stable fun _ h => h
  | succ left ih =>
      refine .bind (.call stable (fun _ => stable) fun n h => ?_) fun d => ih _ _
      exact h.congr (advance_sameRing h.page1 2)

theorem readRest_triple (size : BitVec 16) (buffer : ByteMem) :
    device.Triple (Copying rxpage next k) (readRest size buffer) fun _ =>
      Copying rxpage next k := by
  have stable := copying_stable rxpage next k
  unfold readRest
  split
  · refine .bind (inb_triple stable (fun _ => stable) fun n h => ?_) fun d =>
      .ret stable fun _ h => h
    exact h.congr (advance_sameRing h.page1 1)
  · exact .ret stable fun _ h => h

/-- No frame is left to be taken out. -/
theorem Taking.drained (h : n.Taking rxpage frame k) (heq : rxpage = frame) : n.Drained := by
  obtain ⟨hpage, hwindow, r, ps, qs, hring, hframe, hrx, _, hlost⟩ := h
  have hmod := page_eq_iff.mp ((hrx.symm.trans heq).trans hframe)
  have hfits := hring.fits
  rw [List.sum_append] at hfits
  have hzero : ps.sum = 0 := by omega
  have hnil := (sum_eq_zero_iff fun p hp => hring.pos p (List.mem_append_left qs hp)).mp hzero
  subst hnil
  exact ⟨hpage, hwindow, r, qs, hring, hlost⟩

theorem Taking.eq_of_none (h : n.Taking rxpage frame 0) : rxpage = frame := by
  obtain ⟨_, _, r, ps, qs, _, hframe, hrx, hk, _⟩ := h
  have hnil := List.eq_nil_of_length_eq_zero (Nat.le_zero.mp hk)
  subst hnil
  exact hrx.trans hframe.symm

/-- The header of the next frame is read. -/
theorem header_triple (hne : rxpage ≠ frame) :
    device.Triple (fun n => Taking rxpage frame (k + 1) n ∧ n.rsar = frame ++ (0 : BitVec 8))
      (inl 0x10) fun val => Copying rxpage (val.extractLsb' 8 8) k :=
  .call (stable_and_rsar (taking_stable rxpage frame (k + 1)) fun a => a = frame ++ (0 : BitVec 8))
    (fun _ => copying_stable _ _ _) fun _ h => h.1.read hne h.2

/-- The address of the header is set. -/
theorem address_triple {P : BitVec 16 → Prop} {Q : BitVec 16 → Prop} {off : Nat} {v : BitVec 8}
    (hoff : off ≠ 0x3 ∧ off ≠ 0x7) (hv : off = 0x0 → v &&& 0xc0 ≠ 0x40)
    (h : ∀ n : Ne2k, n.page1 = false → P n.rsar → Q (n.outb off v).rsar) :
    device.Triple (fun n => Taking rxpage frame k n ∧ P n.rsar) (BadOs.outb off v) fun _ n =>
      Taking rxpage frame k n ∧ Q n.rsar :=
  outb_triple (stable_and_rsar (taking_stable rxpage frame k) P)
    (stable_and_rsar (taking_stable rxpage frame k) Q) fun n hn =>
      ⟨hn.1.congr (outb_sameRing hn.1.page1 hoff hv), h n hn.1.page1 hn.2⟩

theorem addressLo_triple :
    device.Triple (Taking rxpage frame k) (BadOs.outb 0x8 0) fun _ n =>
      Taking rxpage frame k n ∧ n.rsar.extractLsb' 0 8 = 0 := by
  have hlow : ∀ n : Ne2k, n.page1 = false → True → (n.outb 0x8 0).rsar.extractLsb' 0 8 = 0 := by
    intro n hpage _
    show (if n.page1 = true then n else _).rsar.extractLsb' 0 8 = 0
    rw [hpage]
    exact BitVec.extractLsb'_append_eq_right
  exact (address_triple (P := fun _ => True) (Q := fun a => a.extractLsb' 0 8 = 0) (by decide)
    (by decide) hlow).consequence (fun _ h => ⟨h, trivial⟩) fun _ _ h => h

theorem addressHi_triple :
    device.Triple (fun n => Taking rxpage frame k n ∧ n.rsar.extractLsb' 0 8 = 0)
      (BadOs.outb 0x9 frame) fun _ n =>
        Taking rxpage frame k n ∧ n.rsar = frame ++ (0 : BitVec 8) := by
  refine address_triple (P := fun a => a.extractLsb' 0 8 = 0)
    (Q := fun a => a = frame ++ (0 : BitVec 8)) (by decide) (fun h => absurd h (by decide))
    fun n hpage hlow => ?_
  show (if n.page1 = true then n else _).rsar = _
  rw [hpage]
  exact congrArg (frame ++ ·) hlow

/-- All frames up to `rxpage` are taken out. -/
theorem drain_triple (rxpage : BitVec 8) (k : Nat) (frame : BitVec 8) :
    device.Triple (Taking rxpage frame k) (drain rxpage (k + 1) frame) fun _ => Drained := by
  induction k generalizing frame with
  | zero =>
      rw [drain]
      split
      · next hne => exact fun n h => absurd h.eq_of_none hne
      · next heq =>
        exact .ret (taking_stable rxpage frame 0) fun n h => h.drained (not_not.mp heq)
  | succ k ih =>
      rw [drain]
      split
      · next hne =>
        refine .bind (taking_outb (by decide) (by decide)) fun _ => ?_
        refine .bind (taking_outb (by decide) (by decide)) fun _ => ?_
        refine .bind (taking_outb (by decide) (by decide)) fun _ => ?_
        refine .bind addressLo_triple fun _ => ?_
        refine .bind addressHi_triple fun _ => ?_
        refine .bind (address_triple (P := fun a => a = frame ++ (0 : BitVec 8))
          (Q := fun a => a = frame ++ (0 : BitVec 8)) (by decide) (by decide)
          fun _ _ h => h) fun _ => ?_
        refine .bind (header_triple hne) fun val => ?_
        -- The frame itself.
        refine .bind (copying_outb (by decide) (by decide)) fun _ => ?_
        refine .bind (copying_outb (by decide) (by decide)) fun _ => ?_
        refine .bind (copying_outb (by decide) fun h => absurd h (by decide)) fun _ => ?_
        refine .bind (copying_outb (by decide) fun h => absurd h (by decide)) fun _ => ?_
        refine .bind (readWords_triple _ _ _) fun buffer => ?_
        refine .bind (readRest_triple _ buffer) fun buffer => ?_
        refine .bind (outb_triple (copying_stable _ _ k) (taking_stable _ _ k) fun n h =>
          h.giveBack) fun _ => ?_
        exact .bind (ih _) fun frames => .ret drained_stable fun n h => h
      · next heq =>
        exact .ret (taking_stable rxpage frame (k + 1)) fun n h => h.drained (not_not.mp heq)

end

/-- What the handler knows from its read of `ISR`. -/
def Known (wtf : BitVec 8) (n : Ne2k) : Prop :=
  (wtf &&& 1 ≠ 0 → n.Seen false) ∧ (wtf &&& 1 = 0 → n.Drained)

theorem known_stable (wtf : BitVec 8) : device.Stable (Known wtf) := fun n n' h hevent =>
  ⟨fun hwtf => seen_stable false n n' (h.1 hwtf) hevent,
    fun hwtf => drained_stable n n' (h.2 hwtf) hevent⟩

/-- Without `PacketReceived` there is nothing to take out, but what was lost before. -/
theorem Idle.inb (h : n.Idle) : Known (n.inb 0x7).1 (n.inb 0x7).2 := by
  obtain ⟨hpage, hwindow, r, ps, hring, hlost, hkept⟩ := h
  have hin : n.inb 0x7 = (n.isr, { n with window := n.window || n.isr &&& 1 == 0 }) := by
    show (if n.page1 = true then _ else _) = _
    rw [hpage]
    rfl
  rw [hin]
  refine ⟨fun hwtf => ⟨hpage, ?_, ?_, r, ps, hring.congr rfl rfl rfl⟩, fun hwtf => ⟨hpage, ?_, r,
    ps, hring.congr rfl rfl rfl, fun h => (hlost h).1, fun hne => ?_⟩⟩
  · show (n.window || n.isr &&& 1 == 0) = false
    rw [hwindow, Bool.false_or]
    exact beq_eq_false_iff_ne.mpr hwtf
  · exact eq_false_of_ne_true fun h => (hlost h).2 hwtf
  · show (n.window || n.isr &&& 1 == 0) = true
    rw [hwindow, Bool.false_or]
    exact beq_iff_eq.mpr hwtf
  · refine eq_true_of_ne_false fun h => ?_
    obtain hnil | hreceived := hkept h
    · exact hne hnil
    · exact hreceived hwtf

theorem outb_isr_eq (hpage : n.page1 = false) (v : BitVec 8) : n.outb 0x7 v =
    { n with isr := n.isr &&& ~~~v, window := n.window && v != 0xff } := by
  show (if n.page1 = true then _ else _) = _
  rw [hpage]
  rfl

/-- A write to `ISR` that does not end the window. -/
theorem outb_isr (hpage : n.page1 = false) {v : BitVec 8} (hv : v ≠ 0xff) :
    n.SameRing (n.outb 0x7 v) := by
  rw [outb_isr_eq hpage]
  refine ⟨hpage, ?_, rfl, rfl, rfl, rfl⟩
  show (n.window && v != 0xff) = n.window
  rw [bne_iff_ne.mpr hv, Bool.and_true]

theorem Seen.congr (h : n.Seen false) (same : n.SameRing n') : n'.Seen false := by
  obtain ⟨_, hwindow, hlost, r, ps, hring⟩ := h
  exact ⟨same.page1, same.window.trans hwindow, same.lost.trans hlost, r, ps, same.ring hring⟩

theorem Drained.congr (h : n.Drained) (same : n.SameRing n') : n'.Drained := by
  obtain ⟨_, hwindow, r, qs, hring, hlost⟩ := h
  exact ⟨same.page1, same.window.trans hwindow, r, qs, same.ring hring, same.lost ▸ hlost⟩

theorem ackDma_triple (wtf : BitVec 8) :
    device.Triple (Known wtf) (ackDma wtf) fun _ => Known wtf := by
  unfold ackDma
  split
  · refine outb_triple (known_stable wtf) (known_stable wtf) fun n h => ⟨fun hwtf => ?_,
      fun hwtf => ?_⟩
    · exact (h.1 hwtf).congr (outb_isr (h.1 hwtf).page1 (by decide))
    · exact (h.2 hwtf).congr (outb_isr (h.2 hwtf).page1 (by decide))
  · exact .ret (known_stable wtf) fun n h => h

/-- `CURPAGE` decides which frames are taken out. -/
theorem Seen.inb (h : n.Seen true) : (n.inb 0x7).2.Draining true (n.inb 0x7).1 := by
  obtain ⟨hpage, hwindow, hlost, r, ps, hring⟩ := h
  have hin : n.inb 0x7 = (n.curpage, { n with window := true }) := by
    show (if n.page1 = true then _ else _) = _
    rw [hpage]
    rfl
  rw [hin]
  refine ⟨hpage, rfl, r, ps, [], ?_, hring.curpage, fun h => ?_, fun h => absurd rfl h⟩
  · rw [List.append_nil]
    exact hring.congr rfl rfl rfl
  · cases hlost.symm.trans h

theorem length_le_sum {ps : List Nat} (pos : ∀ p ∈ ps, 0 < p) : ps.length ≤ ps.sum := by
  induction ps with
  | nil => exact Nat.le_refl 0
  | cons p ps ih =>
      obtain ⟨hp, hps⟩ := List.forall_mem_cons.mp pos
      have hle := ih hps
      rw [List.length_cons, List.sum_cons]
      omega

theorem Draining.inb {rxpage : BitVec 8} (h : n.Draining false rxpage) :
    (n.inb 0x3).2.Taking rxpage (pageAfter (n.inb 0x3).1) 51 := by
  obtain ⟨hpage, hwindow, r, ps, qs, hring, hrx, hlost⟩ := h
  have hin : n.inb 0x3 = (n.boundry, n) := by
    show ((if n.page1 = true then _ else _), n) = _
    rw [hpage]
    rfl
  have hfits := hring.fits
  rw [List.sum_append] at hfits
  have hlength := length_le_sum fun p hp => hring.pos p (List.mem_append_left qs hp)
  rw [hin]
  exact ⟨hpage, hwindow, r, ps, qs, hring, hring.boundry, hrx, by omega, hlost⟩

theorem receivePackets_triple (wtf : BitVec 8) :
    device.Triple (Known wtf) (receivePackets wtf) fun _ => Drained := by
  unfold receivePackets
  split
  · next hwtf =>
    refine .bind (outb_triple (known_stable wtf) (seen_stable true) fun n h => ?_) fun _ => ?_
    · obtain ⟨_, hwindow, hlost, r, ps, hring⟩ := h.1 hwtf
      exact ⟨rfl, hwindow, hlost, r, ps, hring.congr rfl rfl rfl⟩
    refine .bind (inb_triple (seen_stable true) (draining_stable true) fun n h => h.inb)
      fun rxpage => ?_
    refine .bind (outb_triple (draining_stable true rxpage) (draining_stable false rxpage)
      fun n h => ?_) fun _ => ?_
    · obtain ⟨_, hwindow, r, ps, qs, hring, hrest⟩ := h
      exact ⟨rfl, hwindow, r, ps, qs, hring.congr rfl rfl rfl, hrest⟩
    refine .bind (inb_triple (draining_stable false rxpage)
      (fun boundry => taking_stable rxpage (pageAfter boundry) 51) fun n h => h.inb)
      fun boundry => ?_
    refine .bind (drain_triple rxpage 51 (pageAfter boundry)) fun frames => ?_
    refine .bind (outb_triple drained_stable drained_stable fun n h => ?_) fun _ =>
      .ret drained_stable fun n h => h
    exact h.congr (outb_isr h.page1 (by decide))
  · next hwtf =>
    exact .ret (known_stable wtf) fun n h => h.2 (not_not.mp hwtf)

/-- The last write to `ISR` takes back the report of the frames that are left. -/
theorem Drained.clear (h : n.Drained) : (n.outb 0x7 0xff).Idle := by
  obtain ⟨hpage, _, r, qs, hring, hlost⟩ := h
  rw [outb_isr_eq hpage]
  refine ⟨hpage, Bool.and_false n.window, r, qs, hring.congr rfl rfl rfl, fun h => ⟨hlost.mp h, ?_⟩,
    fun h => Or.inl ?_⟩
  · intro hreceived
    apply hreceived
    show n.isr &&& 0#8 &&& 1 = 0
    rw [BitVec.and_zero, BitVec.zero_and]
    rfl
  · by_contra hne
    cases h.symm.trans (hlost.mpr hne)

/-- The handler, from the interrupt to its return. -/
theorem ne2kIrq_triple : device.Triple Idle ne2kIrq fun _ => Idle := by
  refine .bind (inb_triple idle_stable known_stable fun n h => h.inb) fun wtf => ?_
  refine .bind (ackDma_triple wtf) fun _ => ?_
  refine .bind (receivePackets_triple wtf) fun frames => ?_
  refine .bind (outb_triple drained_stable drained_stable fun n h => ?_) fun _ => ?_
  · exact h.congr (outb_sameRing h.page1 (by decide) (by decide))
  exact .bind (outb_triple drained_stable idle_stable fun n h => h.clear) fun _ =>
    .ret idle_stable fun n h => h

theorem init_idle : init.Idle := by
  refine ⟨rfl, rfl, 0, [], ⟨?_, rfl, ?_, by decide, trivial⟩, ?_, fun _ => Or.inl rfl⟩
  · decide
  · exact fun p hp => nomatch hp
  · exact fun h => nomatch h

/-- The report is there for the frames in the ring, or the last one came in the window. -/
theorem Idle.reports_iff (h : n.Idle) : n.Empty ∨ n.Received ↔ n.lost = false := by
  obtain ⟨_, _, r, ps, hring, hlost, hkept⟩ := h
  rw [hring.empty_iff]
  refine ⟨fun hreport => eq_false_of_ne_true fun h => ?_, hkept⟩
  obtain ⟨hne, hnot⟩ := hlost h
  exact hreport.elim hne hnot

end Ne2k

/-! ## Runs -/

/-- The handler will end in an idle state. -/
def IrqState.Sound (s : IrqState) : Prop :=
  match s.handler with
  | none => s.card.Idle
  | some p => Ne2k.device.Ensures (fun _ => Ne2k.Idle) p s.card

theorem ne2kStep_sound {s : IrqState} (h : s.Sound) (op : IrqOp) :
    ∃ s', ne2kStep s op = .ok s' ∧ s'.Sound := by
  obtain ⟨card, handler, queued⟩ := s
  cases op with
  | event e =>
      refine ⟨_, rfl, ?_⟩
      cases handler with
      | none => exact Ne2k.idle_stable card _ h ⟨e, rfl⟩
      | some p => exact Device.Ensures.event h ⟨e, rfl⟩
  | interrupt =>
      cases handler with
      | none => exact ⟨_, rfl, Ne2k.ne2kIrq_triple card h⟩
      | some p => exact ⟨_, rfl, h⟩
  | access =>
      match handler, h with
      | none, h => exact ⟨_, rfl, h⟩
      | some (.ret frames), h =>
          have hret : Ne2k.device.Ensures (fun _ => Ne2k.Idle) (.ret frames) card := h
          exact ⟨_, rfl, hret.ret⟩
      | some (.access a next), h => exact ⟨_, rfl, Device.Ensures.access h⟩

theorem exec_ne2k_sound {s : IrqState} (h : s.Sound) (ops : List IrqOp) :
    ∃ s', Transition.exec ne2kStep s ops = .ok s' ∧ s'.Sound := by
  induction ops generalizing s with
  | nil => exact ⟨s, rfl, h⟩
  | cons op ops ih =>
      obtain ⟨s₁, hstep, h₁⟩ := ne2kStep_sound h op
      obtain ⟨s', hexec, h'⟩ := ih h₁
      exact ⟨s', (Transition.exec_cons hstep).trans hexec, h'⟩

/-- After `initialize`. -/
def IrqState.init : IrqState := ⟨.init, none, []⟩

/-- Frames come when the handler will see them, or its return leaves them reported. -/
def IrqOp.Timely (s : IrqState) : IrqOp → Prop
  | .event (.frame _ _) => s.card.window = false
  | _ => True

theorem ne2kStep_timely {s s' : IrqState} {op : IrqOp} (h : s.card.lost = false)
    (timely : op.Timely s) (hstep : ne2kStep s op = .ok s') : s'.card.lost = false := by
  obtain ⟨card, handler, queued⟩ := s
  cases op with
  | event e =>
      cases hstep
      refine card.event_lost h fun size content he => ?_
      subst he
      exact timely
  | interrupt =>
      cases handler with
      | none => cases hstep; exact h
      | some p => cases hstep; exact h
  | access =>
      match handler, hstep with
      | none, hstep => cases hstep; exact h
      | some (.ret frames), hstep => cases hstep; exact h
      | some (.access a next), hstep =>
          cases hstep
          exact (card.respond_lost a).trans h

/-- Whatever comes when: `ne2k_irq` returns, and the frames in the ring are reported then unless
the last one came after the handler had looked and before it cleared `ISR`. -/
theorem irq_reports (ops : List IrqOp) :
    ∃ s, Transition.exec ne2kStep .init ops = .ok s ∧
      (s.handler = none → (s.card.Empty ∨ s.card.Received ↔ s.card.lost = false)) ∧
      (Transition.Run ne2kStep (fun s op => op.Timely s) .init ops s → s.handler = none →
        s.card.Empty ∨ s.card.Received) := by
  obtain ⟨s, hexec, hsound⟩ := exec_ne2k_sound (s := .init) Ne2k.init_idle ops
  have hreports : s.handler = none → (s.card.Empty ∨ s.card.Received ↔ s.card.lost = false) := by
    intro hnone
    unfold IrqState.Sound at hsound
    rw [hnone] at hsound
    exact hsound.reports_iff
  refine ⟨s, hexec, hreports, fun run hnone => (hreports hnone).mpr ?_⟩
  exact run.invariant (I := fun s => s.card.lost = false)
    (fun _ _ _ h timely hstep => ne2kStep_timely h timely hstep) rfl

/-- A second frame comes when the first one is taken out. -/
def lateFrame : List IrqOp :=
  .event (.frame 60 fun _ => 7) :: .interrupt :: List.replicate 3 .access ++
    .event (.frame 60 fun _ => 7) :: List.replicate 51 .access

theorem irq_strands : ¬∀ ops s, Transition.exec ne2kStep .init ops = .ok s → s.handler = none →
    s.card.Empty ∨ s.card.Received := by
  intro h
  have hlate : ((Transition.exec ne2kStep .init lateFrame).holds fun s =>
      s.handler.isNone && decide ¬(s.card.Empty ∨ s.card.Received)) = true := by decide
  obtain ⟨s, hexec, hs⟩ := Except.exists_of_holds hlate
  rw [Bool.and_eq_true, Option.isNone_iff_eq_none, decide_eq_true_eq] at hs
  exact hs.2 (h lateFrame s hexec hs.1)

end BadOs
