import BadOs.Ne2k.Copy
import BadOs.Ne2k.Ledger

/-!
# The ring pointer of the NE2000

`ne2k_irq` keeps its place in `BOUNDRY`, as the page before the next one. Behind a packet that
ends with the ring this is the page before the ring, which the test at the next interrupt
takes for the same place.
-/

namespace BadOs

/-- What is enqueued for a packet at page `r`: its size and its bytes. The last byte of an odd
number of them is another one. -/
structure Delivered (r : Nat) (p : RingPacket) (f : BitVec 16 × ByteMem) : Prop where
  size : f.1.toNat = p.size
  bytes : ∀ i < p.size, (p.size % 2 = 0 ∨ i + 1 < p.size) → f.2 i = p.content (ringAddr r (4 + i))

/-- What is enqueued for packets one behind the other: one buffer each, in their order. -/
def Delivers : Nat → List RingPacket → List (BitVec 16 × ByteMem) → Prop
  | _, [], [] => True
  | r, p :: ps, f :: fs => Delivered r p f ∧ Delivers (r + p.pages) ps fs
  | _, _, _ => False

theorem Delivers.append {r : Nat} {ps qs : List RingPacket} {fs hs : List (BitVec 16 × ByteMem)}
    (h : Delivers r ps fs) (h' : Delivers (r + pagesOf ps) qs hs) :
    Delivers r (ps ++ qs) (fs ++ hs) := by
  induction ps generalizing r fs with
  | nil =>
      cases fs with
      | nil => exact h'
      | cons f fs => exact h.elim
  | cons p ps ih =>
      cases fs with
      | nil => exact h.elim
      | cons f fs =>
          rw [pagesOf_cons, ← Nat.add_assoc] at h'
          exact ⟨h.1, ih h.2 h'⟩

/-! ## Addresses -/

/-- The remote DMA goes on to the next word of a packet, at the end of the ring to its start. -/
theorem advance_ringAddr {n : Ne2k} {r s : Nat} (heven : s % 2 = 0)
    (h : n.rsar.toNat = ringAddr r (4 + s)) :
    (n.advance 2).rsar.toNat = ringAddr r (4 + (s + 2)) := by
  have hlt : n.rsar.toNat + 2 < 2 ^ 16 := by
    rw [h, ringAddr, toNat_page]
    omega
  have hsum : (n.rsar + 2).toNat = n.rsar.toNat + 2 := by
    rw [BitVec.toNat_add, show (2 : BitVec 16).toNat = 2 from rfl]
    omega
  show (if n.rsar + 2 = 0x8000 then (0x4c00 : BitVec 16) else n.rsar + 2).toNat = _
  rw [ringAddr, toNat_page] at h ⊢
  split
  · next hend =>
    have hstop := congrArg BitVec.toNat hend
    rw [hsum, show (0x8000 : BitVec 16).toNat = 0x8000 from rfl] at hstop
    rw [show (0x4c00 : BitVec 16).toNat = 0x4c00 from rfl]
    omega
  · next hend =>
    have hstop : n.rsar.toNat + 2 ≠ 0x8000 := by
      intro heq
      exact hend (BitVec.eq_of_toNat_eq (hsum.trans heq))
    rw [hsum]
    omega

theorem ringAddr_succ {r s : Nat} (heven : s % 2 = 0) :
    ringAddr r (4 + (s + 1)) = ringAddr r (4 + s) + 1 := by
  unfold ringAddr
  rw [toNat_page, toNat_page]
  omega

/-- The bytes of a word, as the loop takes it apart. -/
theorem setWidth_read (m : ByteMem) (a : Nat) : (m.read a 2).setWidth 8 = m a := by
  rw [BitVec.setWidth_eq_extractLsb' (by decide)]
  exact ByteMem.extractLsb'_read m a (j := 0) (by decide)

theorem setWidth_read_high (m : ByteMem) (a : Nat) :
    ((m.read a 2) >>> 8).setWidth 8 = m (a + 1) := by
  rw [BitVec.setWidth_ushiftRight_eq_extractLsb]
  exact ByteMem.extractLsb'_read m a (j := 1) (by decide)

/-- Behind the header of a packet the remote DMA is in the same page. -/
theorem append_add_four (v : BitVec 8) :
    (v ++ (0 : BitVec 8) : BitVec 16) + 4 = v ++ (4 : BitVec 8) := by
  apply BitVec.eq_of_toNat_eq
  have hlt := v.isLt
  rw [BitVec.toNat_add, OnesComplement.toNat_append, OnesComplement.toNat_append,
    show (4 : BitVec 16).toNat = 4 from rfl, show (0 : BitVec 8).toNat = 0 from rfl,
    show (4 : BitVec 8).toNat = 4 from rfl]
  omega

theorem append_four_ne (v : BitVec 8) : v ++ (4 : BitVec 8) ≠ (0x8000 : BitVec 16) := by
  intro heq
  have hnat := congrArg BitVec.toNat heq
  rw [OnesComplement.toNat_append, show (4 : BitVec 8).toNat = 4 from rfl,
    show (0x8000 : BitVec 16).toNat = 0x8000 from rfl] at hnat
  omega

/-- The header of a packet, as the loop takes it apart. -/
theorem StoredAt.header {m : ByteMem} {r : Nat} {p : RingPacket} (h : StoredAt m r p)
    (hsize : p.size + 4 < 2 ^ 16) :
    (m.read (ringAddr r 0) 4).extractLsb' 8 8 = page (r + p.pages) ∧
      ((m.read (ringAddr r 0) 4).extractLsb' 16 16).toNat = p.size + 4 := by
  have haddr (j : Nat) (hj : j < 256) : ringAddr r 0 + j = ringAddr r j := by
    rw [ringAddr_low r hj, ringAddr_low r (by decide), Nat.add_zero]
  have hcount : (m.read (ringAddr r 0) 4).extractLsb' 16 16 =
      m (ringAddr r 0 + 3) ++ m (ringAddr r 0 + 2) :=
    (ByteMem.extractLsb'_read_word m _ (j := 2) (k := 2) (by decide)).trans (ByteMem.read_two m _)
  constructor
  · rw [ByteMem.extractLsb'_read m _ (j := 1) (by decide), haddr 1 (by decide)]
    exact h.next
  · rw [hcount, haddr 3 (by decide), haddr 2 (by decide), h.countHi, h.countLo,
      OnesComplement.toNat_append, BitVec.toNat_ofNat, BitVec.toNat_ofNat]
    omega

namespace Ledger

/-! ## Assertions -/

/-- Page 0 is selected, `taken` was given back, the ring begins with `todo`, and the remote DMA
is where `F` says. -/
structure Open (taken todo : List RingPacket) (F : BitVec 16 → Prop) (g : Ledger) : Prop where
  page1 : g.card.page1 = false
  kept : g.Kept taken todo
  dma : F g.card.rsar

/-- Nothing is known of the remote DMA. -/
def anywhere (_ : BitVec 16) : Prop := True

variable {g g' : Ledger} {taken todo : List RingPacket} {F G : BitVec 16 → Prop} {α : Type}

theorem event_rsar (g : Ledger) (e : Ne2k.Event) : (g.event e).card.rsar = g.card.rsar := by
  cases e with
  | frame size content => exact Ne2k.event_rsar g.card _
  | other bits => rfl

theorem open_stable (taken todo : List RingPacket) (F : BitVec 16 → Prop) :
    device.Stable (Open taken todo F) := by
  rintro g _ ⟨hpage, hkept, hdma⟩ ⟨e, rfl⟩
  exact ⟨(event_page1 g e).trans hpage, hkept.event e, (event_rsar g e).symm ▸ hdma⟩

theorem stable_and {P : Ledger → Prop} (φ : Prop) (stable : device.Stable P) :
    device.Stable fun g => φ ∧ P g := by
  rintro g g' ⟨hφ, hP⟩ hevent
  exact ⟨hφ, stable g g' hP hevent⟩

theorem Open.mono (h : g.Open taken todo F) (weaker : ∀ a, F a → G a) : g.Open taken todo G :=
  ⟨h.page1, h.kept, weaker _ h.dma⟩

/-- A write that sets up the remote DMA. -/
theorem open_outb {off : Nat} {v : BitVec 8} (hoff : off ≠ 0x3 ∧ off ≠ 0x7)
    (hv : off = 0x0 → v &&& 0xc0 ≠ 0x40)
    (h : ∀ n : Ne2k, n.page1 = false → F n.rsar → G (n.outb off v).rsar) :
    device.Triple (Open taken todo F) (BadOs.outb off v) fun _ => Open taken todo G := by
  refine .call (open_stable _ _ _) (fun _ => open_stable _ _ _) fun g hg => ?_
  have same := Ne2k.outb_sameRing hg.page1 hoff hv
  have hnoted : g.noted (.outb off v) = [] := by
    unfold noted
    split
    · next heq =>
      cases heq
      exact absurd rfl hoff.1
    · rfl
  have hwritten : (g.respond (.outb off v)).2.written = g.written := by
    rw [respond, hnoted, List.append_nil]
  refine ⟨same.page1, ?_, h g.card hg.page1 hg.dma⟩
  exact hg.kept.congr hwritten rfl same.boundry same.curpage same.mem

/-! ## Taking a packet out -/

section

variable {p : RingPacket}

/-- The first packet of the ring. -/
theorem Kept.first (h : g.Kept taken (p :: todo)) :
    StoredAt g.card.mem (pagesOf taken) p ∧ p.size + 4 < 2 ^ 16 := by
  obtain ⟨_, late, _, hring, hholds⟩ := h
  have hfits := hring.fits
  rw [List.cons_append, List.map_cons, List.sum_cons, RingPacket.pages] at hfits
  exact ⟨hholds.1, by omega⟩

theorem header_triple :
    device.Triple (Open taken (p :: todo) fun a => a = page (pagesOf taken) ++ (0 : BitVec 8))
      (inl 0x10) fun val g =>
        (val.extractLsb' 8 8 = page (pagesOf taken + p.pages) ∧
          (val.extractLsb' 16 16).toNat = p.size + 4) ∧
        g.Open taken (p :: todo) fun a => a.extractLsb' 8 8 = page (pagesOf taken) := by
  refine .call (open_stable _ _ _) (fun _ => stable_and _ (open_stable _ _ _)) fun g hg => ?_
  obtain ⟨hstored, hsize⟩ := hg.kept.first
  have haddr : g.card.rsar.toNat = ringAddr (pagesOf taken) 0 := by
    rw [hg.dma, Ne2k.toNat_append_zero, ringAddr_low _ (by decide), Nat.add_zero]
  refine ⟨?_, hg.page1, hg.kept.congr (List.append_nil _) rfl rfl rfl rfl, ?_⟩
  · show (g.card.mem.read g.card.rsar.toNat 4).extractLsb' 8 8 = _ ∧
      ((g.card.mem.read g.card.rsar.toNat 4).extractLsb' 16 16).toNat = _
    rw [haddr]
    exact hstored.header hsize
  · show (if g.card.rsar + 4 = 0x8000 then (0x4c00 : BitVec 16) else g.card.rsar + 4).extractLsb'
      8 8 = _
    rw [hg.dma, append_add_four, if_neg (append_four_ne _)]
    exact BitVec.extractLsb'_append_eq_left

/-- The bytes of a word of the packet. -/
theorem word_triple {s : Nat} (heven : s % 2 = 0) :
    device.Triple (Open taken (p :: todo) fun a => a.toNat = ringAddr (pagesOf taken) (4 + s))
      (inw 0x10) fun d g =>
        ((s < p.size → d.setWidth 8 = p.content (ringAddr (pagesOf taken) (4 + s))) ∧
          (s + 1 < p.size →
            (d >>> 8).setWidth 8 = p.content (ringAddr (pagesOf taken) (4 + (s + 1))))) ∧
        g.Open taken (p :: todo) fun a => a.toNat = ringAddr (pagesOf taken) (4 + (s + 2)) := by
  refine .call (open_stable _ _ _) (fun _ => stable_and _ (open_stable _ _ _)) fun g hg => ?_
  obtain ⟨hstored, _⟩ := hg.kept.first
  refine ⟨⟨fun hs => ?_, fun hs => ?_⟩, hg.page1,
    hg.kept.congr (List.append_nil _) rfl rfl rfl rfl, advance_ringAddr heven hg.dma⟩
  · refine (setWidth_read _ _).trans ?_
    rw [hg.dma]
    exact hstored.bytes s hs
  · refine (setWidth_read_high _ _).trans ?_
    rw [hg.dma, ← ringAddr_succ heven]
    exact hstored.bytes (s + 1) hs

/-- The first `n` bytes of the packet are in the buffer. -/
def Filled (r : Nat) (p : RingPacket) (n : Nat) (buffer : ByteMem) : Prop :=
  ∀ i < n, i < p.size → buffer i = p.content (ringAddr r (4 + i))

theorem words_triple (left : Nat) {s : Nat} (heven : s % 2 = 0) {buffer : ByteMem}
    (hfilled : Filled (pagesOf taken) p s buffer) :
    device.Triple (Open taken (p :: todo) fun a => a.toNat = ringAddr (pagesOf taken) (4 + s))
      (readWords left s buffer) fun buffer g =>
        Filled (pagesOf taken) p (s + 2 * left) buffer ∧ g.Open taken (p :: todo) anywhere := by
  induction left generalizing s buffer with
  | zero =>
      exact .ret (open_stable _ _ _) fun g hg => ⟨hfilled, hg.mono fun _ _ => trivial⟩
  | succ left ih =>
      refine .bind (word_triple heven) fun d => .fact fun hword => ?_
      obtain ⟨hlow, hhigh⟩ := hword
      have hnext : Filled (pagesOf taken) p (s + 2) (Function.update
          (Function.update buffer (s + 1) ((d >>> 8).setWidth 8)) s (d.setWidth 8)) := by
        intro i hi hsize
        by_cases his : i = s
        · subst his
          rw [Function.update_self]
          exact hlow hsize
        · rw [Function.update_of_ne his]
          by_cases his' : i = s + 1
          · subst his'
            rw [Function.update_self]
            exact hhigh hsize
          · rw [Function.update_of_ne his']
            exact hfilled i (by omega) hsize
      have hrest := ih (s := s + 2) (by omega) hnext
      rw [show s + 2 + 2 * left = s + 2 * (left + 1) by omega] at hrest
      exact hrest

/-- A packet of odd size loses its last byte. -/
theorem rest_triple {size : BitVec 16} (hsize : size.toNat = p.size) {buffer : ByteMem}
    (hfilled : Filled (pagesOf taken) p p.size buffer) :
    device.Triple (Open taken (p :: todo) anywhere) (readRest size buffer) fun buffer g =>
      Delivered (pagesOf taken) p (size, buffer) ∧ g.Open taken (p :: todo) anywhere := by
  unfold readRest
  split
  · next hodd =>
    have hmod := (and_one_ne_zero_iff size).mp hodd
    have hlast : (size - 1).toNat = p.size - 1 := by
      rw [BitVec.toNat_sub, show (1 : BitVec 16).toNat = 1 from rfl]
      omega
    refine .bind (.call (open_stable _ _ _) (fun _ => open_stable _ _ _) fun g hg => ?_) fun d =>
      .ret (open_stable taken (p :: todo) anywhere) fun g hg => ⟨⟨hsize, ?_⟩, hg⟩
    · exact ⟨hg.page1, hg.kept.congr (List.append_nil _) rfl rfl rfl rfl, trivial⟩
    · intro i hi hor
      dsimp only
      rw [Function.update_of_ne (by omega)]
      exact hfilled i hi hi
  · exact .ret (open_stable _ _ _) fun g hg => ⟨⟨hsize, fun i hi _ => hfilled i hi hi⟩, hg⟩

theorem respond_boundry (hpage : g.card.page1 = false) (v : BitVec 8) :
    g.respond (.outb 0x3 v) =
      ((), ⟨{ g.card with boundry := v }, g.arrived, g.written ++ [v]⟩) := by
  have hno : ¬g.card.page1 = true := by
    rw [hpage]
    decide
  have hcard : g.card.outb 0x3 v = { g.card with boundry := v } := if_neg hno
  have hnoted : g.noted (.outb 0x3 v) = [v] := if_neg hno
  rw [respond, hnoted, ← hcard]
  rfl

theorem Kept.giveBack (h : g.Kept taken (p :: todo)) (hpage : g.card.page1 = false)
    {next : BitVec 8} (hnext : next = page (pagesOf taken + p.pages)) :
    (g.respond (.outb 0x3 (next - 1))).2.Kept (taken ++ [p]) todo := by
  obtain ⟨hwritten, late, harrived, hring, hholds⟩ := h
  have hpages := pagesOf_concat taken p
  have hcurpage := hring.curpage
  have hfits := hring.fits
  rw [List.cons_append, List.map_cons, List.sum_cons] at hcurpage hfits
  rw [respond_boundry hpage]
  refine ⟨?_, late, ?_, ?_, ?_⟩
  · rw [hwritten, givenBack_append, hnext, Nat.zero_add]
    rfl
  · rw [harrived, List.append_assoc]
    rfl
  · rw [hpages]
    refine ⟨?_, ?_, ?_, by omega, hring.linked.2⟩
    · show pageAfter (next - 1) = _
      rw [hnext]
      exact pageAfter_sub_one _
    · rw [Nat.add_assoc]
      exact hcurpage
    · exact fun q hq => hring.pos q (List.mem_cons_of_mem _ hq)
  · rw [hpages]
    exact hholds.2

theorem giveBack_triple {next : BitVec 8} (hnext : next = page (pagesOf taken + p.pages)) :
    device.Triple (Open taken (p :: todo) anywhere) (BadOs.outb 0x3 (next - 1)) fun _ =>
      Open (taken ++ [p]) todo anywhere := by
  refine .call (open_stable _ _ _) (fun _ => open_stable _ _ _) fun g hg => ⟨?_, ?_, trivial⟩
  · show (g.respond (.outb 0x3 (next - 1))).2.card.page1 = false
    rw [respond_boundry hg.page1]
    exact hg.page1
  · exact hg.kept.giveBack hg.page1 hnext

end

section

variable {rest : PortProg Nat α} {Q : α → Ledger → Prop}

/-- Before the header is read the remote DMA is set to the page. -/
theorem header_setup {frame : BitVec 8} (hframe : frame = page (pagesOf taken))
    (hrest : device.Triple (Open taken todo fun a => a = page (pagesOf taken) ++ (0 : BitVec 8))
      rest Q) :
    device.Triple (Open taken todo anywhere) (do
      BadOs.outb 0x0 0x22
      BadOs.outb 0xa 4
      BadOs.outb 0xb 0
      BadOs.outb 0x8 0
      BadOs.outb 0x9 frame
      BadOs.outb 0x0 0x0a
      rest) Q := by
  refine .bind (open_outb (G := anywhere) (by decide) (by decide) fun _ _ h => h) fun _ => ?_
  refine .bind (open_outb (G := anywhere) (by decide) (by decide) fun _ _ h => h) fun _ => ?_
  refine .bind (open_outb (G := anywhere) (by decide) (by decide) fun _ _ h => h) fun _ => ?_
  refine .bind (open_outb (G := fun a => a.extractLsb' 0 8 = 0) (by decide) (by decide)
    fun n hpage _ => ?_) fun _ => ?_
  · show (if n.page1 = true then n else _ : Ne2k).rsar.extractLsb' 0 8 = 0
    rw [hpage]
    exact BitVec.extractLsb'_append_eq_right
  refine .bind (open_outb (G := fun a => a = page (pagesOf taken) ++ (0 : BitVec 8))
    (by decide) (fun h => absurd h (by decide)) fun n hpage hlow => ?_) fun _ => ?_
  · show (if n.page1 = true then n else _ : Ne2k).rsar = _
    rw [hpage, ← hframe]
    exact congrArg (frame ++ ·) hlow
  exact .bind (open_outb (by decide) (by decide) fun _ _ h => h) fun _ => hrest

/-- Before the packet is read the remote DMA is set to what is behind the header. -/
theorem packet_setup (lo hi : BitVec 8)
    (hrest : device.Triple (Open taken todo fun a => a.toNat = ringAddr (pagesOf taken) (4 + 0))
      rest Q) :
    device.Triple (Open taken todo fun a => a.extractLsb' 8 8 = page (pagesOf taken)) (do
      BadOs.outb 0x0 0x22
      BadOs.outb 0x8 4
      BadOs.outb 0xa lo
      BadOs.outb 0xb hi
      rest) Q := by
  refine .bind (open_outb (G := fun a => a.extractLsb' 8 8 = page (pagesOf taken))
    (by decide) (by decide) fun _ _ h => h) fun _ => ?_
  refine .bind (open_outb (G := fun a => a.toNat = ringAddr (pagesOf taken) (4 + 0))
    (by decide) (by decide) fun n hpage hhigh => ?_) fun _ => ?_
  · show (if n.page1 = true then n else _ : Ne2k).rsar.toNat = _
    rw [hpage, ringAddr_low _ (by decide), ← hhigh]
    exact (OnesComplement.toNat_append _ 4).trans (by rw [Nat.mul_comm]; rfl)
  refine .bind (open_outb (G := fun a => a.toNat = ringAddr (pagesOf taken) (4 + 0))
    (by decide) (fun h => absurd h (by decide)) fun _ _ h => h) fun _ => ?_
  exact .bind (open_outb (by decide) (fun h => absurd h (by decide)) fun _ _ h => h)
    fun _ => hrest

end

/-- The packets up to `rxpage` are taken out, one after the other. -/
theorem drain_triple {rxpage : BitVec 8} (todo : List RingPacket) :
    ∀ {taken : List RingPacket} {frame : BitVec 8} {k : Nat}, frame = page (pagesOf taken) →
      rxpage = page (pagesOf taken + pagesOf todo) → pagesOf todo < 52 → todo.length ≤ k →
      device.Triple (Open taken todo anywhere) (drain rxpage (k + 1) frame) fun frames g =>
        Delivers (pagesOf taken) todo frames ∧ g.Open (taken ++ todo) [] anywhere := by
  induction todo with
  | nil =>
      intro taken frame k hframe hrx _ _
      have heq : rxpage = frame := hrx.trans hframe.symm
      rw [drain, if_neg (not_not.mpr heq)]
      refine .ret (open_stable _ _ _) fun g hg => ⟨trivial, ?_⟩
      rw [List.append_nil]
      exact hg
  | cons p todo ih =>
      intro taken frame k hframe hrx hfits hk
      have hpos := p.pages_pos
      rw [pagesOf_cons] at hrx hfits
      have hne : rxpage ≠ frame := by
        intro heq
        have hmod := page_eq_iff.mp (hrx.symm.trans (heq.trans hframe))
        omega
      obtain ⟨k, rfl⟩ : ∃ j, k = j + 1 := ⟨k - 1, by rw [List.length_cons] at hk; omega⟩
      rw [drain, if_pos hne]
      refine header_setup hframe (.bind header_triple fun val => .fact fun hheader => ?_)
      obtain ⟨hnext, hcount⟩ := hheader
      have hsize : (val.extractLsb' 16 16 - 4).toNat = p.size := by
        have hlt := (val.extractLsb' 16 16).isLt
        rw [BitVec.toNat_sub, show (4 : BitVec 16).toNat = 4 from rfl]
        omega
      refine packet_setup _ _ (.bind (words_triple _ (by decide) fun i hi =>
        absurd hi (Nat.not_lt_zero i)) fun buffer => .fact fun hfilled => ?_)
      refine .bind (rest_triple hsize fun i hi => hfilled i (by omega))
        fun buffer => .fact fun hdelivered => ?_
      refine .bind (giveBack_triple hnext) fun _ => ?_
      have hpages := pagesOf_concat taken p
      refine .bind (ih (hpages ▸ hnext) (by rw [hpages, Nat.add_assoc]; exact hrx) (by omega)
        (Nat.le_of_succ_le_succ hk)) fun frames => .fact fun hrest => ?_
      refine .ret (open_stable _ _ _) fun g hg => ⟨⟨hdelivered, hpages ▸ hrest⟩, ?_⟩
      rw [List.append_assoc] at hg
      exact hg

/-! ## The handler -/

/-- Between two interrupts: what was promised is given back, or it is in the ring and
reported. -/
structure Ready (taken : List RingPacket) (promise : Nat) (g : Ledger) : Prop where
  isOpen : g.Open taken [] anywhere
  promise : promise ≤ taken.length ∨ g.card.Received ∧ promise ≤ g.arrived.length

theorem event_arrived (g : Ledger) (e : Ne2k.Event) :
    g.arrived.length ≤ (g.event e).arrived.length := by
  cases e with
  | frame size content =>
      show g.arrived.length ≤ (if _ then _ else _ : List RingPacket).length
      split
      · simp
      · exact Nat.le_refl _
  | other bits => exact Nat.le_refl _

theorem event_received (e : Ne2k.Event) (h : g.card.Received) : (g.event e).card.Received := by
  cases e with
  | frame size content =>
      show (if _ then _ else g.card : Ne2k).Received
      split
      · exact Ne2k.received_or_one _
      · exact h
  | other bits =>
      show (g.card.isr ||| bits &&& 0xfe) &&& 1 ≠ 0
      rw [Ne2k.received_or_other]
      exact h

theorem ready_stable (taken : List RingPacket) (promise : Nat) :
    device.Stable (Ready taken promise) := by
  rintro g _ ⟨hopen, hpromise⟩ ⟨e, rfl⟩
  refine ⟨open_stable _ _ _ g _ hopen ⟨e, rfl⟩, ?_⟩
  rcases hpromise with hle | ⟨hreceived, hle⟩
  · exact Or.inl hle
  · exact Or.inr ⟨event_received e hreceived, hle.trans (event_arrived g e)⟩

/-- The page is selected, and what was promised arrived. -/
structure Waiting (page1 : Bool) (taken : List RingPacket) (promise : Nat) (g : Ledger) : Prop where
  page1 : g.card.page1 = page1
  kept : g.Kept taken []
  promise : promise ≤ g.arrived.length

theorem waiting_stable (page1 : Bool) (taken : List RingPacket) (promise : Nat) :
    device.Stable (Waiting page1 taken promise) := by
  rintro g _ ⟨hpage, hkept, hpromise⟩ ⟨e, rfl⟩
  exact ⟨(event_page1 g e).trans hpage, hkept.event e, hpromise.trans (event_arrived g e)⟩

/-- The packets `todo` are to be taken out. -/
structure Chosen (page1 : Bool) (taken todo : List RingPacket) (g : Ledger) : Prop where
  page1 : g.card.page1 = page1
  kept : g.Kept taken todo

theorem chosen_stable (page1 : Bool) (taken todo : List RingPacket) :
    device.Stable (Chosen page1 taken todo) := by
  rintro g _ ⟨hpage, hkept⟩ ⟨e, rfl⟩
  exact ⟨(event_page1 g e).trans hpage, hkept.event e⟩

theorem Kept.length_le (h : g.Kept taken todo) : taken.length ≤ g.arrived.length := by
  obtain ⟨_, late, harrived, _⟩ := h
  rw [harrived, List.length_append]
  omega

theorem length_le_pagesOf (ps : List RingPacket) : ps.length ≤ pagesOf ps := by
  have hle : (ps.map RingPacket.pages).length ≤ pagesOf ps := Ne2k.length_le_sum (by
    intro n hn
    obtain ⟨p, _, rfl⟩ := List.mem_map.mp hn
    exact p.pages_pos)
  rw [List.length_map] at hle
  exact hle

/-- The handler reads `ISR`. -/
theorem isr_triple (promise : Nat) :
    device.Triple (Ready taken promise) (BadOs.inb 0x7) fun wtf g =>
      (wtf &&& 1 = 0 → promise ≤ taken.length) ∧ g.Waiting false taken promise := by
  refine .call (ready_stable _ _) (fun _ => stable_and _ (waiting_stable _ _ _)) fun g hg => ?_
  obtain ⟨⟨hpage, hkept, _⟩, hpromise⟩ := hg
  have hin : g.card.inb 0x7 =
      (g.card.isr, { g.card with window := g.card.window || g.card.isr &&& 1 == 0 }) :=
    if_neg (by rw [hpage]; decide)
  have hrespond : g.respond (.inb 0x7) = (g.card.isr, ⟨{ g.card with
      window := g.card.window || g.card.isr &&& 1 == 0 }, g.arrived, g.written ++ []⟩) := by
    show ((g.card.inb 0x7).1, (⟨(g.card.inb 0x7).2, g.arrived, g.written ++ []⟩ : Ledger)) = _
    rw [hin]
  rw [show device.respond (.inb 0x7) g = _ from hrespond]
  refine ⟨fun hzero => ?_, hpage, hkept.congr (List.append_nil _) rfl rfl rfl rfl, ?_⟩
  · rcases hpromise with hle | ⟨hreceived, _⟩
    · exact hle
    · exact absurd hzero hreceived
  · rcases hpromise with hle | ⟨_, hle⟩
    · exact hle.trans hkept.length_le
    · exact hle

/-- A write to `ISR`. -/
theorem respond_isr (hpage : g.card.page1 = false) (v : BitVec 8) :
    (g.respond (.outb 0x7 v)).2 = ⟨{ g.card with
      isr := g.card.isr &&& ~~~v
      window := g.card.window && v != 0xff }, g.arrived, g.written ++ []⟩ := by
  show (⟨g.card.outb 0x7 v, g.arrived, g.written ++ []⟩ : Ledger) = _
  rw [Ne2k.outb_isr_eq hpage]

theorem ackDma_triple (wtf : BitVec 8) (promise : Nat) :
    device.Triple (Waiting false taken promise) (ackDma wtf) fun _ =>
      Waiting false taken promise := by
  unfold ackDma
  split
  · refine .call (waiting_stable _ _ _) (fun _ => waiting_stable _ _ _) fun g hg => ?_
    show (g.respond (.outb 0x7 64)).2.Waiting false taken promise
    rw [respond_isr hg.page1]
    exact ⟨hg.page1, hg.kept.congr (List.append_nil _) rfl rfl rfl rfl, hg.promise⟩
  · exact .ret (waiting_stable _ _ _) fun _ hg => hg

/-- All the packets in the ring, as `CURPAGE` tells. -/
theorem Kept.all (h : g.Kept taken []) : ∃ todo, g.arrived = taken ++ todo ∧ pagesOf todo < 52 ∧
    g.card.curpage = page (pagesOf taken + pagesOf todo) ∧ g.Kept taken todo := by
  obtain ⟨hwritten, todo, harrived, hring, hholds⟩ := h
  refine ⟨todo, harrived, hring.fits, hring.curpage, hwritten, [], ?_⟩
  rw [List.append_nil]
  exact ⟨harrived, hring, hholds⟩

/-- `CURPAGE` decides which packets are taken out: all that arrived. -/
theorem curpage_triple (promise : Nat) :
    device.Triple (Waiting true taken promise) (BadOs.inb 0x7) fun rxpage g =>
      ∃ todo, (rxpage = page (pagesOf taken + pagesOf todo) ∧ pagesOf todo < 52 ∧
        promise ≤ (taken ++ todo).length) ∧ g.Chosen true taken todo := by
  have stable (rxpage : BitVec 8) : device.Stable fun g => ∃ todo,
      (rxpage = page (pagesOf taken + pagesOf todo) ∧ pagesOf todo < 52 ∧
        promise ≤ (taken ++ todo).length) ∧ g.Chosen true taken todo := by
    rintro g g' ⟨todo, hfacts, hg⟩ hevent
    exact ⟨todo, hfacts, chosen_stable true taken todo g g' hg hevent⟩
  refine .call (waiting_stable _ _ _) stable fun g hg => ?_
  obtain ⟨hpage, hkept, hpromise⟩ := hg
  obtain ⟨todo, harrived, hfits, hcurpage, hall⟩ := hkept.all
  have hin : g.card.inb 0x7 = (g.card.curpage, { g.card with window := true }) := if_pos hpage
  have hrespond : g.respond (.inb 0x7) =
      (g.card.curpage, ⟨{ g.card with window := true }, g.arrived, g.written ++ []⟩) := by
    show ((g.card.inb 0x7).1, (⟨(g.card.inb 0x7).2, g.arrived, g.written ++ []⟩ : Ledger)) = _
    rw [hin]
  rw [show device.respond (.inb 0x7) g = _ from hrespond]
  exact ⟨todo, ⟨hcurpage, hfits, harrived ▸ hpromise⟩, hpage,
    hall.congr (List.append_nil _) rfl rfl rfl rfl⟩

/-- `BOUNDRY` leads to the first packet of the ring. -/
theorem boundry_triple (todo : List RingPacket) :
    device.Triple (Chosen false taken todo) (BadOs.inb 0x3) fun boundry g =>
      pageAfter boundry = page (pagesOf taken) ∧ g.Open taken todo anywhere := by
  refine .call (chosen_stable _ _ _) (fun _ => stable_and _ (open_stable _ _ _)) fun g hg => ?_
  obtain ⟨hpage, hkept⟩ := hg
  have hin : (g.card.inb 0x3).1 = g.card.boundry := if_neg (by rw [hpage]; decide)
  obtain ⟨_, late, _, hring, _⟩ := id hkept
  refine ⟨?_, hpage, hkept.congr (List.append_nil _) rfl rfl rfl rfl, trivial⟩
  show pageAfter (g.card.inb 0x3).1 = _
  rw [hin]
  exact hring.boundry

/-- What the handler leaves: it enqueued the packets `todo` and gave them back. -/
def Served (taken : List RingPacket) (promise : Nat) (frames : List (BitVec 16 × ByteMem))
    (g : Ledger) : Prop :=
  ∃ todo, (Delivers (pagesOf taken) todo frames ∧ promise ≤ (taken ++ todo).length) ∧
    g.Open (taken ++ todo) [] anywhere

theorem open_isr (v : BitVec 8) :
    device.Triple (Open taken todo anywhere) (BadOs.outb 0x7 v) fun _ =>
      Open taken todo anywhere := by
  refine .call (open_stable _ _ _) (fun _ => open_stable _ _ _) fun g hg => ?_
  show (g.respond (.outb 0x7 v)).2.Open taken todo anywhere
  rw [respond_isr hg.page1]
  exact ⟨hg.page1, hg.kept.congr (List.append_nil _) rfl rfl rfl rfl, trivial⟩

/-- The choice of a page. -/
theorem select_kept (v : BitVec 8) (h : g.Kept taken todo) :
    (g.respond (.outb 0x0 v)).2.Kept taken todo :=
  h.congr (List.append_nil _) rfl rfl rfl rfl

theorem receivePackets_triple (wtf : BitVec 8) {promise : Nat}
    (hpromise : wtf &&& 1 = 0 → promise ≤ taken.length) :
    device.Triple (Waiting false taken promise) (receivePackets wtf) (Served taken promise) := by
  unfold receivePackets
  split
  · refine .bind (.call (waiting_stable _ _ _) (fun _ => waiting_stable true taken promise)
      fun g hg => ⟨rfl, select_kept _ hg.kept, hg.promise⟩) fun _ => ?_
    refine .bind (curpage_triple promise) fun rxpage => .choose fun todo => .fact fun hfacts => ?_
    obtain ⟨hrx, hfits, htodo⟩ := hfacts
    refine .bind (.call (chosen_stable _ _ _) (fun _ => chosen_stable false taken todo)
      fun g hg => ⟨rfl, select_kept _ hg.kept⟩) fun _ => ?_
    refine .bind (boundry_triple todo) fun boundry => .fact fun hframe => ?_
    have hlength := length_le_pagesOf todo
    refine .bind (drain_triple todo (k := 51) hframe hrx hfits (by omega))
      fun frames => .fact fun hdelivers => ?_
    refine .bind (open_isr 1) fun _ => .ret (open_stable _ _ _) fun g hg => ?_
    exact ⟨todo, ⟨hdelivers, htodo⟩, hg⟩
  · next hwtf =>
    refine .ret (waiting_stable _ _ _) fun g hg => ⟨[], ⟨trivial, ?_⟩, hg.page1, ?_, trivial⟩
    · rw [List.append_nil]
      exact hpromise (not_not.mp hwtf)
    · rw [List.append_nil]
      exact hg.kept

/-- The handler, from the interrupt to its return. -/
theorem ne2kIrq_triple (taken : List RingPacket) (promise : Nat) :
    device.Triple (Ready taken promise) ne2kIrq (Served taken promise) := by
  refine .bind (isr_triple promise) fun wtf => .fact fun hpromise => ?_
  refine .bind (ackDma_triple wtf promise) fun _ => ?_
  refine .bind (receivePackets_triple wtf hpromise) fun frames =>
    .choose fun todo => .fact fun hfacts => ?_
  refine .bind (open_outb (G := anywhere) (by decide) (by decide) fun _ _ h => h) fun _ => ?_
  refine .bind (open_isr 0xff) fun _ => .ret (open_stable _ _ _) fun g hg => ?_
  exact ⟨todo, hfacts, hg⟩

/-- Accesses add to the record of the writes. -/
theorem accesses_kept
    (h : Relation.ReflTransGen (fun g g' => ∃ a, g' = (device.respond a g).2) g g') :
    g'.arrived = g.arrived ∧ g.written <+: g'.written := by
  induction h with
  | refl => exact ⟨rfl, List.prefix_refl _⟩
  | tail _ hstep ih =>
      obtain ⟨a, rfl⟩ := hstep
      exact ⟨ih.1, ih.2.trans (List.prefix_append _ _)⟩

end Ledger

/-! ## Runs -/

/-- The card with its record, what is left of the handler if it runs, the buffers for
`dispatch`, and how many packets had arrived when the last receive interrupt came. -/
structure RingState where
  ledger : Ledger
  handler : Option (PortProg Nat (List (BitVec 16 × ByteMem)))
  queued : List (BitVec 16 × ByteMem)
  promise : Nat

/-- The steps of `ne2kStep`, with the record. -/
def ringStep (s : RingState) : IrqOp → Except Trap RingState
  | .event e => .ok { s with ledger := s.ledger.event e }
  | .interrupt =>
      match s.handler with
      | none => .ok { s with
          handler := some ne2kIrq
          promise := if s.ledger.card.Received then s.ledger.arrived.length else s.promise }
      | some _ => .ok s
  | .access =>
      match s.handler with
      | none => .ok s
      | some (.ret frames) => .ok { s with handler := none, queued := s.queued ++ frames }
      | some .stuck => .error .diverged
      | some (.access a next) =>
          let (r, ledger) := s.ledger.respond a
          .ok { s with ledger := ledger, handler := some (next r) }

namespace RingState

/-- Without the record. -/
def erase (s : RingState) : IrqState := ⟨s.ledger.card, s.handler, s.queued⟩

def init : RingState := ⟨.init, none, [], 0⟩

/-- The record changes nothing for the handler and the card. -/
theorem ringStep_erase (s : RingState) (op : IrqOp) :
    (ringStep s op).map erase = ne2kStep s.erase op := by
  obtain ⟨ledger, handler, queued, promise⟩ := s
  cases op with
  | event e => cases e <;> rfl
  | interrupt => cases handler <;> rfl
  | access =>
      match handler with
      | none => rfl
      | some (.ret frames) => rfl
      | some .stuck => rfl
      | some (.access a next) => rfl

/-- What was enqueued are the packets that were taken out, and the handler will do its part. -/
def Sound (s : RingState) : Prop :=
  ∃ taken, Delivers 0 taken s.queued ∧
    match s.handler with
    | none => s.ledger.Open taken [] Ledger.anywhere ∧ s.promise ≤ taken.length
    | some p => Ledger.device.Ensures (Ledger.Served taken s.promise) p s.ledger

theorem ringStep_sound {s : RingState} (h : s.Sound) (op : IrqOp) :
    ∃ s', ringStep s op = .ok s' ∧ s'.Sound := by
  obtain ⟨ledger, handler, queued, promise⟩ := s
  obtain ⟨taken, hdelivers, hrest⟩ := h
  cases op with
  | event e =>
      refine ⟨_, rfl, taken, hdelivers, ?_⟩
      cases handler with
      | none => exact ⟨Ledger.open_stable _ _ _ ledger _ hrest.1 ⟨e, rfl⟩, hrest.2⟩
      | some p => exact Device.Ensures.event hrest ⟨e, rfl⟩
  | interrupt =>
      cases handler with
      | none =>
          refine ⟨_, rfl, taken, hdelivers, Ledger.ne2kIrq_triple taken _ ledger ⟨hrest.1, ?_⟩⟩
          dsimp only
          split
          · next hreceived => exact Or.inr ⟨hreceived, Nat.le_refl _⟩
          · exact Or.inl hrest.2
      | some p => exact ⟨_, rfl, taken, hdelivers, hrest⟩
  | access =>
      match handler, hrest with
      | none, hrest => exact ⟨_, rfl, taken, hdelivers, hrest⟩
      | some (.ret frames), hrest =>
          have hret : Ledger.device.Ensures (Ledger.Served taken promise) (.ret frames) ledger :=
            hrest
          obtain ⟨todo, ⟨hframes, hpromise⟩, hopen⟩ := hret.ret
          refine ⟨_, rfl, taken ++ todo, hdelivers.append ?_, hopen, hpromise⟩
          rw [Nat.zero_add]
          exact hframes
      | some (.access a next), hrest =>
          exact ⟨_, rfl, taken, hdelivers, Device.Ensures.access hrest⟩

theorem exec_ring_sound {s : RingState} (h : s.Sound) (ops : List IrqOp) :
    ∃ s', Transition.exec ringStep s ops = .ok s' ∧ s'.Sound := by
  induction ops generalizing s with
  | nil => exact ⟨s, rfl, h⟩
  | cons op ops ih =>
      obtain ⟨s₁, hstep, h₁⟩ := ringStep_sound h op
      obtain ⟨s', hexec, h'⟩ := ih h₁
      exact ⟨s', (Transition.exec_cons hstep).trans hexec, h'⟩

theorem init_open : init.ledger.Open [] [] Ledger.anywhere := by
  refine ⟨rfl, ⟨rfl, [], rfl, ?_, trivial⟩, trivial⟩
  exact ⟨by decide, rfl, by simp, by decide, trivial⟩

theorem init_sound : init.Sound := ⟨[], trivial, init_open, Nat.le_refl 0⟩

/-- Also while the handler runs, what was written to `BOUNDRY` belongs to the first packets
that arrived. -/
theorem Sound.written {s : RingState} (h : s.Sound) : ∃ back late,
    s.ledger.arrived = back ++ late ∧ s.ledger.written <+: givenBack 0 back := by
  obtain ⟨ledger, handler, queued, promise⟩ := s
  obtain ⟨taken, _, hrest⟩ := h
  cases handler with
  | none =>
      obtain ⟨⟨_, ⟨hwritten, late, harrived, _⟩, _⟩, _⟩ := hrest
      exact ⟨taken, late, harrived, hwritten ▸ List.prefix_refl _⟩
  | some p =>
      obtain ⟨frames, g, ⟨todo, _, _, ⟨hwritten, late, harrived, _⟩, _⟩, accesses⟩ :=
        Device.Ensures.ends hrest
      obtain ⟨hsame, hprefix⟩ := Ledger.accesses_kept accesses
      exact ⟨taken ++ todo, late, hsame ▸ harrived, hwritten ▸ hprefix⟩

/-- A page of the ring. -/
def InRing (v : BitVec 8) : Prop := rxStartPage ≤ v ∧ v ≤ stopPage - 1

instance (v : BitVec 8) : Decidable (InRing v) := inferInstanceAs (Decidable (_ ∧ _))

/-- The page before a page of the ring. -/
theorem inRing_sub_one_iff (i : Nat) : InRing (page i - 1) ↔ page i ≠ rxStartPage := by
  have hstart : page i ≠ rxStartPage ↔ (page i).toNat ≠ 0x4c :=
    not_congr BitVec.toNat_inj.symm
  have hsub : (page i - 1).toNat = (page i).toNat - 1 := by
    rw [BitVec.toNat_sub, show (1 : BitVec 8).toNat = 1 from rfl, toNat_page]
    omega
  rw [hstart, InRing, BitVec.le_def, BitVec.le_def, hsub, toNat_page,
    show rxStartPage.toNat = 0x4c from rfl, show (stopPage - 1).toNat = 0x7f from rfl]
  omega

/-- The value that is written behind a packet leads to the next one. It is a page of the ring
unless the packet ends with the ring. -/
theorem Sound.successor {s : RingState} (h : s.Sound) {i : Nat} {v : BitVec 8}
    (hv : s.ledger.written[i]? = some v) :
    i < s.ledger.arrived.length ∧
      pageAfter v = page (pagesOf (s.ledger.arrived.take (i + 1))) ∧
      (InRing v ↔ page (pagesOf (s.ledger.arrived.take (i + 1))) ≠ rxStartPage) := by
  obtain ⟨back, late, harrived, hprefix⟩ := h.written
  have hi : i < back.length := by
    have hlt := (List.getElem?_eq_some_iff.mp hv).1
    have hle := hprefix.length_le
    rw [length_givenBack] at hle
    omega
  have hback : v = page (pagesOf (back.take (i + 1))) - 1 := by
    have hget := getElem?_givenBack (r := 0) hi
    rw [Nat.zero_add] at hget
    obtain ⟨more, hmore⟩ := hprefix
    rw [← hmore, List.getElem?_append_left (List.getElem?_eq_some_iff.mp hv).1, hv] at hget
    exact Option.some.inj hget
  have htake : s.ledger.arrived.take (i + 1) = back.take (i + 1) := by
    rw [harrived, List.take_append_of_le_length hi]
  rw [htake, hback, harrived, List.length_append]
  exact ⟨by omega, pageAfter_sub_one _, inRing_sub_one_iff _⟩

/-- The packet that arrives does not end with the ring, counted from the first page on through
the packets before it. -/
def EndsInside (s : RingState) : IrqOp → Prop
  | .event (.frame size content) => s.ledger.card.used + (size + 4 + 255) / 256 < 52 →
      page (pagesOf (s.ledger.arrived ++ [⟨size, content⟩])) ≠ rxStartPage
  | _ => True

/-- No packet that arrived ends with the ring. -/
def AllInside (s : RingState) : Prop :=
  ∀ i < s.ledger.arrived.length, page (pagesOf (s.ledger.arrived.take (i + 1))) ≠ rxStartPage

theorem ringStep_allInside {s s' : RingState} {op : IrqOp} (h : s.AllInside)
    (inside : s.EndsInside op) (hstep : ringStep s op = .ok s') : s'.AllInside := by
  obtain ⟨ledger, handler, queued, promise⟩ := s
  cases op with
  | event e =>
      cases hstep
      cases e with
      | frame size content =>
          by_cases hfits : ledger.card.used + (size + 4 + 255) / 256 < 52
          · have harrived : (ledger.event (.frame size content)).arrived =
                ledger.arrived ++ [⟨size, content⟩] := if_pos hfits
            intro i hi
            dsimp only at hi ⊢
            rw [harrived] at hi ⊢
            rw [List.length_append, List.length_singleton] at hi
            by_cases hlast : i < ledger.arrived.length
            · rw [List.take_append_of_le_length hlast]
              exact h i hlast
            · rw [List.take_of_length_le (by rw [List.length_append, List.length_singleton]; omega)]
              exact inside hfits
          · have harrived : (ledger.event (.frame size content)).arrived = ledger.arrived :=
              if_neg hfits
            intro i hi
            dsimp only at hi ⊢
            rw [harrived] at hi ⊢
            exact h i hi
      | other bits => exact h
  | interrupt =>
      cases handler with
      | none => cases hstep; exact h
      | some p => cases hstep; exact h
  | access =>
      match handler, hstep with
      | none, hstep => cases hstep; exact h
      | some (.ret frames), hstep => cases hstep; exact h
      | some (.access a next), hstep => cases hstep; exact h

end RingState

/-- Whatever arrives when: the packets are enqueued once each and in their order, all that had
arrived at a receive interrupt by the return of the handler; what is written to `BOUNDRY` leads
to the next packet. It lies in the ring in every run in which no packet ends with the ring. -/
theorem ring_pointer (ops : List IrqOp) :
    ∃ s, Transition.exec ringStep .init ops = .ok s ∧
      (s.handler = none → ∃ taken late, s.ledger.arrived = taken ++ late ∧
        Delivers 0 taken s.queued ∧ s.ledger.written.length = taken.length ∧
        s.promise ≤ taken.length) ∧
      (∀ i v, s.ledger.written[i]? = some v → i < s.ledger.arrived.length ∧
        pageAfter v = page (pagesOf (s.ledger.arrived.take (i + 1))) ∧
        (RingState.InRing v ↔
          page (pagesOf (s.ledger.arrived.take (i + 1))) ≠ rxStartPage)) ∧
      (Transition.Run ringStep RingState.EndsInside .init ops s →
        ∀ v ∈ s.ledger.written, RingState.InRing v) := by
  obtain ⟨s, hexec, hsound⟩ := RingState.exec_ring_sound RingState.init_sound ops
  refine ⟨s, hexec, fun hnone => ?_, fun i v hv => hsound.successor hv, fun run v hv => ?_⟩
  · obtain ⟨taken, hdelivers, hrest⟩ := hsound
    rw [hnone] at hrest
    obtain ⟨⟨_, ⟨hwritten, late, harrived, _⟩, _⟩, hpromise⟩ := hrest
    exact ⟨taken, late, harrived, hdelivers, by rw [hwritten, length_givenBack], hpromise⟩
  · obtain ⟨i, _, hi⟩ := List.getElem_of_mem hv
    obtain ⟨hlt, _, hiff⟩ := hsound.successor (List.getElem?_eq_some_iff.mpr ⟨_, hi⟩)
    have hinside : s.AllInside := run.invariant (I := RingState.AllInside)
      (fun _ _ _ h inside hstep => RingState.ringStep_allInside h inside hstep)
      (fun i hi => absurd hi (Nat.not_lt_zero i))
    exact hiff.mpr (hinside i hlt)

/-! ## One packet after the other -/

namespace RingState

/-- The packets `ps` arrived and were enqueued, and the handler does not run. -/
structure AtRest (ps : List RingPacket) (s : RingState) : Prop where
  handler : s.handler = none
  arrived : s.ledger.arrived = ps
  delivers : Delivers 0 ps s.queued
  isOpen : s.ledger.Open ps [] Ledger.anywhere

/-- Undisturbed the handler comes to its return. -/
theorem finish {Q : List (BitVec 16 × ByteMem) → Ledger → Prop}
    {p : PortProg Nat (List (BitVec 16 × ByteMem))} {s : RingState} (hhandler : s.handler = some p)
    (h : Ledger.device.Ensures Q p s.ledger) :
    ∃ n frames s', Transition.exec ringStep s (List.replicate n .access) = .ok s' ∧
      s'.handler = none ∧ s'.queued = s.queued ++ frames ∧ s'.ledger.arrived = s.ledger.arrived ∧
      Q frames s'.ledger := by
  obtain ⟨ledger, handler, queued, promise⟩ := s
  subst hhandler
  induction p generalizing ledger with
  | ret frames =>
      exact ⟨1, frames, ⟨ledger, none, queued ++ frames, promise⟩, rfl, rfl, rfl, rfl, h.ret⟩
  | stuck => exact h.elim
  | access a next ih =>
      obtain ⟨n, frames, s', hexec, hnone, hqueued, harrived, hQ⟩ := ih _ _ h.access
      exact ⟨n + 1, frames, s', (Transition.exec_cons rfl).trans hexec, hnone, hqueued, harrived,
        hQ⟩

/-- A packet arrives, and an interrupt enqueues it. -/
theorem AtRest.round {ps : List RingPacket} {s : RingState} (h : s.AtRest ps) (p : RingPacket)
    (hp : p.pages < 52) : ∃ ops s', Transition.exec ringStep s ops = .ok s' ∧
      s'.AtRest (ps ++ [p]) := by
  obtain ⟨ledger, handler, queued, promise⟩ := s
  obtain ⟨hhandler, harrived, hdelivers, hopen⟩ := h
  dsimp only at hhandler harrived hdelivers hopen
  subst hhandler
  obtain ⟨_, late, hlate, hring, _⟩ := id hopen.kept
  have hnil : late = [] := by
    rw [harrived, List.nil_append] at hlate
    exact List.append_cancel_left (hlate.symm.trans (List.append_nil ps).symm)
  subst hnil
  have hfits : ledger.card.used + (p.size + 4 + 255) / 256 < 52 := by
    rw [hring.used]
    exact (Nat.zero_add _).trans_lt hp
  let g := ledger.event (.frame p.size p.content)
  have harrived' : g.arrived = ps ++ [p] := by
    rw [← harrived]
    exact if_pos hfits
  have hreceived : g.card.Received := by
    show (if ledger.card.used + (p.size + 4 + 255) / 256 < 52 then _ else ledger.card).Received
    rw [if_pos hfits]
    exact Ne2k.received_or_one _
  have hready : g.Ready ps g.arrived.length :=
    ⟨Ledger.open_stable _ _ _ ledger g hopen ⟨_, rfl⟩, Or.inr ⟨hreceived, Nat.le_refl _⟩⟩
  obtain ⟨n, frames, s', hexec, hnone, hqueued, hsame, todo, ⟨hframes, hpromise⟩, hopen'⟩ :=
    finish (s := ⟨g, some ne2kIrq, queued, g.arrived.length⟩) rfl
      (Ledger.ne2kIrq_triple ps g.arrived.length g hready)
  obtain ⟨_, late, hlate', _⟩ := id hopen'.kept
  have htodo : ps ++ todo = ps ++ [p] := by
    rw [hsame, harrived', List.nil_append] at hlate'
    rw [harrived', hlate', List.length_append] at hpromise
    have hnil : late = [] := List.eq_nil_of_length_eq_zero (by omega)
    rw [hlate', hnil, List.append_nil]
  refine ⟨.event (.frame p.size p.content) :: .interrupt :: List.replicate n .access, s', ?_, hnone,
    hsame.trans harrived', ?_, htodo ▸ hopen'⟩
  · refine (Transition.exec_cons rfl).trans ((Transition.exec_cons ?_).trans hexec)
    show Except.ok _ = _
    rw [show ({ ledger := g, handler := none, queued := queued, promise := promise } :
      RingState).ledger.card = g.card from rfl, if_pos hreceived]
  · rw [hqueued, ← htodo]
    refine hdelivers.append ?_
    rw [Nat.zero_add]
    exact hframes

theorem init_atRest : init.AtRest [] where
  handler := rfl
  arrived := rfl
  delivers := trivial
  isOpen := init_open

/-- Packets of any sizes can come one after the other. -/
theorem exists_atRest (ps : List RingPacket) (hps : ∀ p ∈ ps, p.pages < 52) :
    ∃ ops s, Transition.exec ringStep init ops = .ok s ∧ s.AtRest ps := by
  induction ps using List.reverseRecOn with
  | nil => exact ⟨[], init, rfl, init_atRest⟩
  | append_singleton ps p ih =>
      obtain ⟨ops, s, hexec, hrest⟩ := ih fun q hq => hps q (List.mem_append_left _ hq)
      obtain ⟨ops', s', hexec', hrest'⟩ :=
        hrest.round p (hps p (List.mem_append_right _ List.mem_cons_self))
      exact ⟨ops ++ ops', s', (Transition.exec_append hexec).trans hexec', hrest'⟩

end RingState

/-- Nine frames that end with the ring: eight of six pages and one of four. -/
def oneTurn : List RingPacket :=
  List.replicate 8 ⟨1514, fun _ => 0⟩ ++ [⟨1000, fun _ => 0⟩]

/-- Behind the last one the page before the ring is written. -/
theorem ring_pointer_below : ¬∀ ops s, Transition.exec ringStep .init ops = .ok s →
    ∀ v ∈ s.ledger.written, RingState.InRing v := by
  intro claim
  obtain ⟨ops, s, hexec, hrest⟩ := RingState.exists_atRest oneTurn (by decide)
  have hwritten : (0x4b : BitVec 8) ∈ s.ledger.written := by
    rw [hrest.isOpen.kept.written]
    decide
  exact absurd (claim ops s hexec 0x4b hwritten) (by decide)

end BadOs
