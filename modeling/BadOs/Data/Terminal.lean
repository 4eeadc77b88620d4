import Mathlib.Data.Fin.Basic
import Mathlib.Data.Nat.Basic
import Mathlib.Logic.Function.Basic

/-!
# Terminals

A screen of `h` rows of `w` cells with a cursor that is always on a cell. A character is
written where the cursor is, and the cursor goes on to the next cell; behind the last row
the screen scrolls by a row.
-/

/-- The contents of the cells, and the cell with the cursor. -/
structure Terminal (h w : Nat) (α : Type*) where
  cell : Fin h → Fin w → α
  row : Fin h
  col : Fin w

namespace Terminal

variable {h w : Nat} {α : Type*}

inductive Input (α : Type*) where
  | char (c : α)
  | newline
  | backspace

/-- All cells are blank. -/
def clear (blank : α) (hh : 0 < h) (hw : 0 < w) : Terminal h w α :=
  ⟨fun _ _ => blank, ⟨0, hh⟩, ⟨0, hw⟩⟩

/-- Write to the cell with the cursor. -/
def set (t : Terminal h w α) (c : α) : Terminal h w α :=
  { t with cell := Function.update t.cell t.row (Function.update (t.cell t.row) t.col c) }

/-- The first row is dropped and a blank one comes last. -/
def scroll (t : Terminal h w α) (blank : α) : Terminal h w α :=
  { t with cell := fun r c => if hr : r + 1 < h then t.cell ⟨r + 1, hr⟩ c else blank }

/-- To the start of the next row, or of the last one after scrolling. -/
def newline (t : Terminal h w α) (blank : α) : Terminal h w α :=
  if hr : t.row + 1 < h then { t with row := ⟨t.row + 1, hr⟩, col := ⟨0, t.col.pos⟩ }
  else { t.scroll blank with col := ⟨0, t.col.pos⟩ }

/-- To the next cell. -/
def advance (t : Terminal h w α) (blank : α) : Terminal h w α :=
  if hc : t.col + 1 < w then { t with col := ⟨t.col + 1, hc⟩ } else t.newline blank

/-- To the cell before, or nowhere from the first one. -/
def retreat (t : Terminal h w α) : Terminal h w α :=
  if hc : 0 < t.col.val then { t with col := ⟨t.col - 1, by omega⟩ }
  else if hr : 0 < t.row.val then
    { t with row := ⟨t.row - 1, by omega⟩, col := ⟨w - 1, by omega⟩ }
  else t

/-- What the terminal does with an input. -/
def input (blank : α) (t : Terminal h w α) : Input α → Terminal h w α
  | .char c => (t.set c).advance blank
  | .newline => t.newline blank
  | .backspace => t.retreat.set blank

/-- The number of cells before the cursor. -/
def offset (t : Terminal h w α) : Nat := t.row * w + t.col

theorem set_cell_self (t : Terminal h w α) (c : α) : (t.set c).cell t.row t.col = c := by
  simp [set]

theorem set_cell_of_ne (t : Terminal h w α) (c : α) {i : Fin h} {j : Fin w}
    (hne : ¬(i = t.row ∧ j = t.col)) : (t.set c).cell i j = t.cell i j := by
  by_cases hi : i = t.row
  · subst hi
    simp [set, Function.update_of_ne fun hj => hne ⟨rfl, hj⟩]
  · simp [set, Function.update_of_ne hi]

theorem offset_lt (t : Terminal h w α) : t.offset < h * w := by
  have hrow : (t.row + 1) * w ≤ h * w := Nat.mul_le_mul_right w t.row.isLt
  rw [Nat.succ_mul] at hrow
  exact Nat.lt_of_lt_of_le (Nat.add_lt_add_left t.col.isLt _) hrow

theorem scroll_cell_of_lt (t : Terminal h w α) (blank : α) {i : Fin h} (j : Fin w)
    (hi : i + 1 < h) : (t.scroll blank).cell i j = t.cell ⟨i + 1, hi⟩ j := dif_pos hi

theorem scroll_cell_last (t : Terminal h w α) (blank : α) {i : Fin h} (j : Fin w)
    (hi : ¬i + 1 < h) : (t.scroll blank).cell i j = blank := dif_neg hi

@[simp] theorem retreat_cell (t : Terminal h w α) : t.retreat.cell = t.cell := by
  unfold retreat
  split
  · rfl
  · split <;> rfl

theorem retreat_offset (t : Terminal h w α) : t.retreat.offset = t.offset - 1 := by
  unfold retreat offset
  split
  · next hc => exact (Nat.add_sub_assoc hc _).symm
  · next hc =>
      have hcol : t.col.val = 0 := Nat.eq_zero_of_not_pos hc
      split
      · next hr =>
          have hw : 1 ≤ w := t.col.pos
          have hrow : (t.row.val - 1) * w + w = t.row * w := by
            rw [← Nat.succ_mul, Nat.succ_eq_add_one, Nat.sub_add_cancel hr]
          show (t.row.val - 1) * w + (w - 1) = t.row * w + t.col - 1
          omega
      · next hr =>
          have hrow : t.row.val = 0 := Nat.eq_zero_of_not_pos hr
          rw [hrow, hcol, Nat.zero_mul]

end Terminal
