import BadOs.Ne2k.Receive

/-!
# The packets in the ring of the NE2000

A record beside the card: the packets that it stored, in order, and the values that were
written to `BOUNDRY`. What is in the ring are the packets that were not given back yet, with
their headers and their bytes.
-/

namespace BadOs

/-! ## Packets -/

/-- A packet with its bytes at their addresses in the ring. -/
structure RingPacket where
  size : Nat
  content : ByteMem

namespace RingPacket

/-- The pages that the packet takes with its header. -/
def pages (p : RingPacket) : Nat := (p.size + 4 + 255) / 256

theorem pages_pos (p : RingPacket) : 0 < p.pages := by
  unfold pages
  omega

end RingPacket

/-- The pages that packets take. -/
def pagesOf (ps : List RingPacket) : Nat := (ps.map RingPacket.pages).sum

@[simp] theorem pagesOf_nil : pagesOf [] = 0 := rfl

@[simp] theorem pagesOf_cons (p : RingPacket) (ps : List RingPacket) :
    pagesOf (p :: ps) = p.pages + pagesOf ps := List.sum_cons

@[simp] theorem pagesOf_append (ps qs : List RingPacket) :
    pagesOf (ps ++ qs) = pagesOf ps + pagesOf qs := by
  simp only [pagesOf, List.map_append, List.sum_append]

theorem pagesOf_concat (ps : List RingPacket) (p : RingPacket) :
    pagesOf (ps ++ [p]) = pagesOf ps + p.pages := by
  simp

/-- The address of byte `j` behind the start of page `r`. -/
def ringAddr (r j : Nat) : Nat := (page (r + j / 256)).toNat * 256 + j % 256

/-- The addresses of the first page. -/
theorem ringAddr_low (r : Nat) {j : Nat} (hj : j < 256) :
    ringAddr r j = (page r).toNat * 256 + j := by
  rw [ringAddr, Nat.div_eq_of_lt hj, Nat.mod_eq_of_lt hj, Nat.add_zero]

/-- The packet is in the ring from page `r` on. -/
structure StoredAt (m : ByteMem) (r : Nat) (p : RingPacket) : Prop where
  next : m (ringAddr r 1) = page (r + p.pages)
  countLo : m (ringAddr r 2) = BitVec.ofNat 8 (p.size + 4)
  countHi : m (ringAddr r 3) = BitVec.ofNat 8 ((p.size + 4) / 256)
  bytes : ∀ i < p.size, m (ringAddr r (4 + i)) = p.content (ringAddr r (4 + i))

/-- The packets are in the ring one behind the other, from page `r` on. -/
def Holds (m : ByteMem) : Nat → List RingPacket → Prop
  | _, [] => True
  | r, p :: ps => StoredAt m r p ∧ Holds m (r + p.pages) ps

/-- The memories agree on the pages from `r` up to `t`. -/
def SamePages (m m' : ByteMem) (r t : Nat) : Prop :=
  ∀ i o, r ≤ i → i < t → o < 256 → m' ((page i).toNat * 256 + o) = m ((page i).toNat * 256 + o)

theorem StoredAt.congr {m m' : ByteMem} {r : Nat} {p : RingPacket} (h : StoredAt m r p)
    (same : SamePages m m' r (r + p.pages)) : StoredAt m' r p := by
  have hbyte : ∀ j < p.size + 4, m' (ringAddr r j) = m (ringAddr r j) := by
    intro j hj
    refine same (r + j / 256) (j % 256) (Nat.le_add_right r _) ?_ (Nat.mod_lt j (by decide))
    unfold RingPacket.pages
    omega
  refine ⟨(hbyte 1 (by omega)).trans h.next, (hbyte 2 (by omega)).trans h.countLo,
    (hbyte 3 (by omega)).trans h.countHi, fun i hi => ?_⟩
  exact (hbyte (4 + i) (by omega)).trans (h.bytes i hi)

theorem Holds.congr {m m' : ByteMem} {r : Nat} {ps : List RingPacket} (h : Holds m r ps)
    (same : SamePages m m' r (r + pagesOf ps)) : Holds m' r ps := by
  induction ps generalizing r with
  | nil => trivial
  | cons p ps ih =>
      rw [pagesOf_cons] at same
      constructor
      · exact h.1.congr fun i o hlo hhi ho => same i o hlo (by omega) ho
      · exact ih h.2 fun i o hlo hhi ho => same i o (by omega) (by omega) ho

theorem Holds.append {m : ByteMem} {r : Nat} {ps : List RingPacket} {p : RingPacket}
    (h : Holds m r ps) (hlast : StoredAt m (r + pagesOf ps) p) : Holds m r (ps ++ [p]) := by
  induction ps generalizing r with
  | nil => exact ⟨hlast, trivial⟩
  | cons q ps ih =>
      rw [pagesOf_cons, ← Nat.add_assoc] at hlast
      exact ⟨h.1, ih h.2 hlast⟩

namespace Ne2k

variable {n : Ne2k} {r : Nat} {ps : List RingPacket} {p : RingPacket}

/-- The packets that are in the ring keep their pages when another one is stored. -/
theorem stored_same (h : n.Ring r (ps.map RingPacket.pages))
    (hfits : pagesOf ps + p.pages < 52) :
    SamePages n.mem (n.stored p.size p.pages p.content) r (r + pagesOf ps) := by
  intro i o hlo hhi ho
  have hcurpage : n.curpage.toNat = 0x4c + (r + pagesOf ps) % 52 := by
    rw [h.curpage, toNat_page]
    rfl
  unfold stored
  dsimp only
  rw [hcurpage, toNat_page]
  rw [if_neg (by omega), if_neg (by omega), if_neg (by omega), if_neg (by omega)]

/-- The packet that is stored. -/
theorem stored_last (h : n.Ring r (ps.map RingPacket.pages))
    (hfits : pagesOf ps + p.pages < 52) :
    StoredAt (n.stored p.size p.pages p.content) (r + pagesOf ps) p := by
  have hcurpage : n.curpage.toNat = 0x4c + (r + pagesOf ps) % 52 := by
    rw [h.curpage, toNat_page]
    rfl
  have hnext : n.nextPage p.pages = page (r + pagesOf ps + p.pages) :=
    nextPage_eq h p.pages (by omega)
  have haddr (j : Nat) (hj : j < 256) :
      ringAddr (r + pagesOf ps) j = n.curpage.toNat * 256 + j := by
    rw [ringAddr_low _ hj, toNat_page, hcurpage]
  refine ⟨?_, ?_, ?_, ?_⟩
  · rw [haddr 1 (by decide)]
    exact (if_pos rfl).trans hnext
  · rw [haddr 2 (by decide)]
    exact (if_neg (by omega)).trans (if_pos rfl)
  · rw [haddr 3 (by decide)]
    exact (if_neg (by omega)).trans ((if_neg (by omega)).trans (if_pos rfl))
  · intro i hi
    have hpages : (4 + i) / 256 < p.pages := by
      unfold RingPacket.pages
      omega
    unfold stored ringAddr
    dsimp only
    rw [hcurpage, toNat_page]
    generalize r + pagesOf ps = t at *
    rw [if_neg (by omega), if_neg (by omega), if_neg (by omega), if_pos (by omega)]

end Ne2k

/-! ## The record -/

/-- The card, the packets that it stored, and the values that were written to `BOUNDRY`. -/
structure Ledger where
  card : Ne2k
  arrived : List RingPacket
  written : List (BitVec 8)

/-- What is written to `BOUNDRY` for packets that are given back, the first one at page `r`. -/
def givenBack : Nat → List RingPacket → List (BitVec 8)
  | _, [] => []
  | r, p :: ps => (page (r + p.pages) - 1) :: givenBack (r + p.pages) ps

theorem givenBack_append (r : Nat) (ps qs : List RingPacket) :
    givenBack r (ps ++ qs) = givenBack r ps ++ givenBack (r + pagesOf ps) qs := by
  induction ps generalizing r with
  | nil => rfl
  | cons p ps ih => simp only [List.cons_append, givenBack, ih, pagesOf_cons, Nat.add_assoc]

theorem length_givenBack (r : Nat) (ps : List RingPacket) :
    (givenBack r ps).length = ps.length := by
  induction ps generalizing r with
  | nil => rfl
  | cons p ps ih => simp only [givenBack, List.length_cons, ih]

theorem getElem?_givenBack {r i : Nat} {ps : List RingPacket} (hi : i < ps.length) :
    (givenBack r ps)[i]? = some (page (r + pagesOf (ps.take (i + 1))) - 1) := by
  induction ps generalizing r i with
  | nil => exact absurd hi (Nat.not_lt_zero i)
  | cons p ps ih =>
      cases i with
      | zero => simp [givenBack]
      | succ i =>
          have hrest := ih (r := r + p.pages) (Nat.lt_of_succ_lt_succ hi)
          simpa [givenBack, Nat.add_assoc] using hrest

namespace Ledger

/-- A packet that fits is recorded. -/
def event : Ne2k.Event → Ledger → Ledger
  | .frame size content, g =>
      { g with
        card := g.card.event (.frame size content)
        arrived := if g.card.used + (size + 4 + 255) / 256 < 52 then g.arrived ++ [⟨size, content⟩]
          else g.arrived }
  | .other bits, g => { g with card := g.card.event (.other bits) }

/-- The value of a write to `BOUNDRY`. -/
def noted (g : Ledger) : PortAccess Nat → List (BitVec 8)
  | .outb 0x3 v => if g.card.page1 then [] else [v]
  | _ => []

def respond (a : PortAccess Nat) (g : Ledger) : a.Answer × Ledger :=
  ((g.card.respond a).1, { g with
    card := (g.card.respond a).2
    written := g.written ++ g.noted a })

def init : Ledger := ⟨.init, [], []⟩

def device : Device (PortAccess Nat) PortAccess.Answer Ledger where
  respond := respond
  event g g' := ∃ e, g' = g.event e

/-- The packets `taken` were given back; those in the ring begin with `todo`. -/
structure Kept (taken todo : List RingPacket) (g : Ledger) : Prop where
  written : g.written = givenBack 0 taken
  arrived : ∃ late, g.arrived = taken ++ (todo ++ late) ∧
    g.card.Ring (pagesOf taken) ((todo ++ late).map RingPacket.pages) ∧
    Holds g.card.mem (pagesOf taken) (todo ++ late)

variable {g g' : Ledger} {taken todo : List RingPacket}

/-- A packet that arrives is behind the others. -/
theorem Kept.event (h : g.Kept taken todo) (e : Ne2k.Event) : (g.event e).Kept taken todo := by
  obtain ⟨hwritten, late, harrived, hring, hholds⟩ := h
  cases e with
  | frame size content =>
      have hused : g.card.used = pagesOf (todo ++ late) := hring.used
      by_cases hfits : g.card.used + (size + 4 + 255) / 256 < 52
      · refine ⟨hwritten, late ++ [⟨size, content⟩], ?_, ?_, ?_⟩
        · refine (if_pos hfits).trans ?_
          rw [harrived, List.append_assoc, List.append_assoc]
        · have hnext := hring.frame size content hfits
          rw [← List.append_assoc, List.map_append]
          exact hnext
        · have hlt : pagesOf (todo ++ late) + RingPacket.pages ⟨size, content⟩ < 52 :=
            hused ▸ hfits
          have hsame := Ne2k.stored_same hring hlt
          have hlast := Ne2k.stored_last hring hlt
          have hmem : (g.event (.frame size content)).card.mem =
              g.card.stored size (RingPacket.pages ⟨size, content⟩) content := by
            show (if g.card.used + (size + 4 + 255) / 256 < 52 then _ else g.card).mem = _
            rw [if_pos hfits]
            rfl
          rw [← List.append_assoc, hmem]
          exact (hholds.congr hsame).append hlast
      · have hcard : (g.event (.frame size content)).card = g.card := if_neg hfits
        refine ⟨hwritten, late, (if_neg hfits).trans harrived, ?_, ?_⟩
        · rw [hcard]
          exact hring
        · rw [hcard]
          exact hholds
  | other bits => exact ⟨hwritten, late, harrived, hring.congr rfl rfl rfl, hholds⟩

theorem event_page1 (g : Ledger) (e : Ne2k.Event) : (g.event e).card.page1 = g.card.page1 := by
  cases e with
  | frame size content =>
      show (if _ then _ else g.card : Ne2k).page1 = _
      split <;> rfl
  | other bits => rfl

/-- An access that leaves the ring alone. -/
theorem Kept.congr (h : g.Kept taken todo) (hwritten : g'.written = g.written)
    (harrived : g'.arrived = g.arrived) (hboundry : g'.card.boundry = g.card.boundry)
    (hcurpage : g'.card.curpage = g.card.curpage) (hmem : g'.card.mem = g.card.mem) :
    g'.Kept taken todo := by
  obtain ⟨hwritten', late, harrived', hring, hholds⟩ := h
  exact ⟨hwritten.trans hwritten', late, harrived.trans harrived',
    hring.congr hboundry hcurpage hmem, hmem ▸ hholds⟩

end Ledger

end BadOs
