import BadOs.Data.Memory

/-!
# Stacks in memory

A stack grows downwards: its top is at the lowest address. What it holds is a list of words of
eight bytes, the top first.
-/

namespace ByteMem

/-- The words from `a` on. -/
def Holds (m : ByteMem) : (a : Nat) → List (BitVec 64) → Prop
  | _, [] => True
  | a, w :: ws => m.read a 8 = w ∧ m.Holds (a + 8) ws

/-- Nothing but `[lo, hi)` differs. -/
def SameBut (lo hi : Nat) (m m' : ByteMem) : Prop := ∀ x, x < lo ∨ hi ≤ x → m' x = m x

variable {m m' m'' : ByteMem} {a lo hi : Nat} {ws : List (BitVec 64)}

@[simp] theorem holds_nil : m.Holds a [] := trivial

@[simp] theorem holds_cons {w : BitVec 64} :
    m.Holds a (w :: ws) ↔ m.read a 8 = w ∧ m.Holds (a + 8) ws := Iff.rfl

theorem holds_append {vs : List (BitVec 64)} :
    m.Holds a (vs ++ ws) ↔ m.Holds a vs ∧ m.Holds (a + 8 * vs.length) ws := by
  induction vs generalizing a with
  | nil => simp
  | cons v vs ih =>
      have hnext : a + 8 + 8 * vs.length = a + 8 * (v :: vs).length := by
        rw [List.length_cons]
        omega
      rw [List.cons_append, holds_cons, holds_cons, ih, hnext, and_assoc]

namespace SameBut

theorem refl (m : ByteMem) (lo hi : Nat) : SameBut lo hi m m := fun _ _ => rfl

theorem mono {lo' hi' : Nat} (h : SameBut lo hi m m') (hlo : lo' ≤ lo) (hhi : hi ≤ hi') :
    SameBut lo' hi' m m' := fun x hx => h x (by omega)

theorem trans (h : SameBut lo hi m m') (h' : SameBut lo hi m' m'') : SameBut lo hi m m'' :=
  fun x hx => (h' x hx).trans (h x hx)

theorem write (m : ByteMem) (a n : Nat) (v : BitVec (8 * n)) :
    SameBut a (a + n) m (m.write a n v) := fun _ hx => write_apply_of_not_mem hx

theorem read (h : SameBut lo hi m m') {n : Nat} (hout : a + n ≤ lo ∨ hi ≤ a) :
    m'.read a n = m.read a n := by
  apply read_congr
  intro x hlo hhi
  exact h x (by omega)

end SameBut

theorem Holds.congr (h : m.Holds a ws) (hsame : SameBut lo hi m m')
    (hout : a + 8 * ws.length ≤ lo ∨ hi ≤ a) : m'.Holds a ws := by
  induction ws generalizing a with
  | nil => trivial
  | cons w ws ih =>
      rw [List.length_cons] at hout
      refine ⟨?_, ih h.2 (by omega)⟩
      rw [hsame.read (by omega)]
      exact h.1

/-- Push a word. -/
theorem Holds.push (h : m.Holds a ws) (ha : 8 ≤ a) (v : BitVec 64) :
    (m.write (a - 8) 8 v).Holds (a - 8) (v :: ws) := by
  have hnext : a - 8 + 8 = a := Nat.sub_add_cancel ha
  refine ⟨read_write_self m (a - 8) 8 v, ?_⟩
  rw [hnext]
  exact h.congr (SameBut.write m (a - 8) 8 v) (.inr (by omega))

end ByteMem
