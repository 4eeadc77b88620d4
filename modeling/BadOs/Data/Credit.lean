import Mathlib.Data.BitVec

/-!
# Credit-based flow control

A receiver holds what it has received in a buffer of bounded size until it is consumed. From
time to time it announces how much it has received and how much more it has room for; the
sender stays within the last announcement. Then the buffer never overflows, although a part
of it may have been consumed and filled again since.

All counts are natural numbers. On the wire they are taken modulo `2 ^ w`.
-/

/-- The counts of a receiver and of its last announcement. -/
structure Credit where
  received : Nat
  /-- Received and not yet consumed. -/
  held : Nat
  /-- What was announced as received. -/
  acked : Nat
  /-- The room that was announced. -/
  window : Nat

namespace Credit

variable {cap len : Nat} {c : Credit}

/-- Announce the counts as they are. -/
def announce (cap : Nat) (c : Credit) : Credit :=
  { c with acked := c.received, window := cap - c.held }

def receive (len : Nat) (c : Credit) : Credit :=
  { c with received := c.received + len, held := c.held + len }

def consume (c : Credit) : Credit := { c with held := 0 }

/-- The sender may send so many more. -/
def Allows (len : Nat) (c : Credit) : Prop := c.received + len ≤ c.acked + c.window

/-- What may still come has room in the buffer. -/
structure Sound (cap : Nat) (c : Credit) : Prop where
  held : c.held ≤ cap
  window : c.window ≤ cap
  acked : c.acked ≤ c.received
  within : c.received ≤ c.acked + c.window
  room : c.acked + c.window + c.held ≤ c.received + cap

/-- A receiver that has just announced its whole buffer. -/
theorem Sound.start (cap : Nat) : Sound cap ⟨0, 0, 0, cap⟩ :=
  ⟨Nat.zero_le _, Nat.le_refl _, Nat.le_refl _, Nat.zero_le _, Nat.le_refl _⟩

theorem Sound.fits (h : c.Sound cap) (allows : c.Allows len) : c.held + len ≤ cap := by
  have hroom := h.room
  unfold Allows at allows
  omega

theorem Sound.receive (h : c.Sound cap) (allows : c.Allows len) : (c.receive len).Sound cap where
  held := h.fits allows
  window := h.window
  acked := h.acked.trans (Nat.le_add_right _ _)
  within := allows
  room := by
    have hroom := h.room
    change c.acked + c.window + (c.held + len) ≤ c.received + len + cap
    omega

theorem Sound.announce (h : c.Sound cap) : (c.announce cap).Sound cap where
  held := h.held
  window := Nat.sub_le _ _
  acked := Nat.le_refl _
  within := Nat.le_add_right _ _
  room := by
    have hheld := h.held
    change c.received + (cap - c.held) + c.held ≤ c.received + cap
    omega

theorem Sound.consume (h : c.Sound cap) : c.consume.Sound cap where
  held := Nat.zero_le _
  window := h.window
  acked := h.acked
  within := h.within
  room := (Nat.le_add_right _ _).trans h.room

/-- The sender computes with numbers modulo `2 ^ w`, from any base. -/
theorem Sound.allows_of_bitVec {w : Nat} (h : c.Sound cap) (hcap : cap < 2 ^ w)
    (base : BitVec w) {seq ack : BitVec w} (hseq : seq = base + BitVec.ofNat w c.received)
    (hack : ack = base + BitVec.ofNat w c.acked) (sent : (seq - ack).toNat + len ≤ c.window) :
    c.Allows len := by
  obtain ⟨d, hd⟩ := Nat.exists_eq_add_of_le h.acked
  have hwithin := h.within
  have hwindow := h.window
  have hdiff : seq - ack = BitVec.ofNat w d := by
    rw [hseq, hack, hd, BitVec.ofNat_add, ← BitVec.add_assoc, BitVec.add_comm,
      BitVec.add_sub_cancel]
  have hsmall : d < 2 ^ w := by omega
  rw [hdiff, BitVec.toNat_ofNat, Nat.mod_eq_of_lt hsmall] at sent
  unfold Allows
  omega

end Credit
