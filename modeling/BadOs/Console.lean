import BadOs.Common
import BadOs.Data.Terminal

/-!
# The console

Video memory holds 25 rows of 80 cells, two bytes for each: the character and its colour. The
cursor is a pointer to a cell. What is seen is a terminal with 24 rows; the last row is always
blank and is what scrolls in.
-/

namespace BadOs

/-- Memory, the two static variables, and what went to the serial port and to the ports of the
video card, in order. -/
structure Console where
  memory : ByteMem
  current : Nat
  currentColor : BitVec 8
  serial : List (BitVec 8)
  ports : List (BitVec 16 × BitVec 8)

abbrev videoStart : Nat := 0xB8000

abbrev consoleLines : Nat := 25

/-- In bytes, 80 columns. -/
abbrev consoleCols : Nat := 160

/-- An address in the 4000 bytes of the screen. -/
abbrev OnScreen (a : Nat) : Prop := videoStart ≤ a ∧ a < videoStart + consoleLines * consoleCols

abbrev blank : BitVec 8 := BitVec.ofNat 8 ' '.toNat

abbrev newline : BitVec 8 := BitVec.ofNat 8 '\n'.toNat

abbrev backspace : BitVec 8 := BitVec.ofNat 8 '\x08'.toNat

namespace Console

/-- An access is meant for the screen. -/
def load (a : Nat) (c : Console) : Except Trap (BitVec 8) :=
  if OnScreen a then .ok (c.memory a) else .error .outOfBounds

def store (a : Nat) (v : BitVec 8) (c : Console) : Except Trap Console :=
  if OnScreen a then .ok { c with memory := Function.update c.memory a v }
  else .error .outOfBounds

def outb (port : BitVec 16) (v : BitVec 8) (c : Console) : Console :=
  { c with ports := c.ports ++ [(port, v)] }

/-- The wait for the port is left out. -/
def serialPut (ch : BitVec 8) (c : Console) : Console := { c with serial := c.serial ++ [ch] }

/-- Where the cursor goes, unless it is behind the screen. -/
def setPosition (position : BitVec 16) (c : Console) : Console :=
  let basePort : BitVec 16 := 0x3d4
  if position < 80 * 25 then
    let c := c.outb basePort 0x0e
    let c := c.outb (basePort + 1) ((position >>> 8 &&& 0xff).setWidth 8)
    let c := c.outb basePort 0x0f
    c.outb (basePort + 1) ((position &&& 0xff).setWidth 8)
  else c

/-- `set_cursor`: the shape of the cursor, and its position. -/
def setCursor (c : Console) : Console :=
  let basePort : BitVec 16 := 0x3d4
  let position : BitVec 16 := BitVec.ofNat 16 ((c.current - videoStart) / 2)
  let c := c.outb basePort 0x0a
  let c := c.outb (basePort + 1) 13
  let c := c.outb basePort 0x0b
  let c := c.outb (basePort + 1) 14
  c.setPosition position

/-- The inner loop of `scroll` over a row. -/
def scrollCols (row : Nat) : (left col : Nat) → Console → Except Trap Console
  | 0, _, c => .ok c
  | left + 1, col, c => do
      let pos := row * consoleCols + col
      let v ← c.load (videoStart + (pos + consoleCols))
      let c ← c.store (videoStart + pos) v
      scrollCols row left (col + 1) c

def scrollRows : (left row : Nat) → Console → Except Trap Console
  | 0, _, c => .ok c
  | left + 1, row, c => do
      let c ← scrollCols row consoleCols 0 c
      scrollRows left (row + 1) c

/-- The loop of `scroll` over the last line. -/
def blankCols (lastLine : Nat) : (left i : Nat) → Console → Except Trap Console
  | 0, _, c => .ok c
  | left + 1, i, c => do
      let c ← c.store (lastLine + i) blank
      let c ← c.store (lastLine + (i + 1)) c.currentColor
      blankCols lastLine left (i + 2) c

def scroll (c : Console) : Except Trap Console := do
  let c ← scrollRows (consoleLines - 1) 0 c
  let c ← blankCols (videoStart + (consoleLines - 1) * consoleCols) (consoleCols / 2) 0 c
  return { c with current := c.current - consoleCols }

/-- `while (current >= VideoStart + (lines - 1) * cols)` -/
def scrollWhile : (fuel : Nat) → Console → Except Trap Console
  | 0, _ => .error .diverged
  | fuel + 1, c =>
      if videoStart + (consoleLines - 1) * consoleCols ≤ c.current then do
        let c ← c.scroll
        scrollWhile fuel c
      else .ok c

/-- The two stores to the cell of the cursor. -/
def putCell (ch : BitVec 8) (c : Console) : Except Trap Console := do
  let c ← c.store c.current ch
  c.store (c.current + 1) c.currentColor

/-- The `switch` of `console_put`. -/
def putChar (ch : BitVec 8) (c : Console) : Except Trap Console :=
  if ch = newline then
    let dist := c.current + consoleCols - videoStart
    .ok { c with current := videoStart + dist / consoleCols * consoleCols }
  else if ch = backspace then
    let current := c.current - 2
    { c with current := if current < videoStart then videoStart else current }.putCell blank
  else do
    let c ← c.putCell ch
    return { c with current := c.current + 2 }

/-- `console_put`. A round of the loop takes a row off the pointer. -/
def put (ch : BitVec 8) (c : Console) : Except Trap Console := do
  let c ← (c.serialPut ch).putChar ch
  let c ← c.scrollWhile (c.current + 1)
  return c.setCursor

/-- The loop of `console_clear_screen`, which leaves the colours alone. -/
def clearCells : (left p : Nat) → Console → Except Trap Console
  | 0, _, c => .ok c
  | left + 1, p, c => do
      let c ← c.store p blank
      clearCells left (p + 2) c

def clearScreen (c : Console) : Except Trap Console := do
  let c ← clearCells (consoleLines * consoleCols / 2) videoStart c
  return { c with current := videoStart }.setCursor

/-! ## What the loops do to the memory -/

theorem one_le_videoStart : 1 ≤ videoStart := by decide

theorem onScreen_of_lt {row col : Nat} (hrow : row < consoleLines) (hcol : col < consoleCols) :
    OnScreen (videoStart + (row * consoleCols + col)) := by
  unfold OnScreen consoleLines consoleCols at *
  omega

theorem load_ok {a : Nat} (c : Console) (h : OnScreen a) : c.load a = .ok (c.memory a) := if_pos h

theorem store_ok {a : Nat} (c : Console) (v : BitVec 8) (h : OnScreen a) :
    c.store a v = .ok { c with memory := Function.update c.memory a v } := if_pos h

/-- The bytes of `[lo, hi)` are those of a row below. -/
def moved (lo hi : Nat) (m : ByteMem) : ByteMem := fun a =>
  if lo ≤ a ∧ a < hi then m (a + consoleCols) else m a

/-- The cells of `[lo, hi)` are blank and have the colour `v`. -/
def blanked (lo hi : Nat) (v : BitVec 8) (m : ByteMem) : ByteMem := fun a =>
  if lo ≤ a ∧ a < hi then if (a - lo) % 2 = 0 then blank else v else m a

/-- The characters of the cells of `[lo, hi)` are blank. -/
def cleared (lo hi : Nat) (m : ByteMem) : ByteMem := fun a =>
  if lo ≤ a ∧ a < hi ∧ (a - lo) % 2 = 0 then blank else m a

/-- A row moves up in place: what a step overwrites is not read by the later ones. -/
theorem moved_update {lo hi : Nat} (m : ByteMem) (hlo : lo < hi) (hhi : hi ≤ lo + consoleCols) :
    moved (lo + 1) hi (Function.update m lo (m (lo + consoleCols))) = moved lo hi m := by
  funext a
  unfold moved
  by_cases ha : a = lo
  · subst ha
    rw [if_neg (by omega), if_pos (by omega), Function.update_self]
  · by_cases hin : lo ≤ a ∧ a < hi
    · rw [if_pos (by omega), if_pos hin, Function.update_of_ne (by omega)]
    · rw [if_neg (by omega), if_neg hin, Function.update_of_ne ha]

/-- Rows move up one after the other. -/
theorem moved_moved {lo mid hi : Nat} (m : ByteMem) (hlo : lo ≤ mid) (hhi : mid ≤ hi) :
    moved mid hi (moved lo mid m) = moved lo hi m := by
  funext a
  unfold moved
  by_cases hin : mid ≤ a ∧ a < hi
  · rw [if_pos hin, if_neg (by omega), if_pos (by omega)]
  · rw [if_neg hin]
    by_cases hlow : lo ≤ a ∧ a < mid
    · rw [if_pos hlow, if_pos (by omega)]
    · rw [if_neg hlow, if_neg (by omega)]

theorem blanked_update (lo : Nat) {hi : Nat} (m : ByteMem) (v : BitVec 8) (hlo : lo + 2 ≤ hi) :
    blanked (lo + 2) hi v (Function.update (Function.update m lo blank) (lo + 1) v) =
      blanked lo hi v m := by
  funext a
  unfold blanked
  by_cases hchar : a = lo
  · subst hchar
    rw [if_neg (by omega), if_pos (by omega), if_pos (by omega),
      Function.update_of_ne (by omega), Function.update_self]
  · by_cases hcolor : a = lo + 1
    · subst hcolor
      rw [if_neg (by omega), if_pos (by omega), if_neg (by omega), Function.update_self]
    · by_cases hin : lo ≤ a ∧ a < hi
      · have hparity : (a - (lo + 2)) % 2 = (a - lo) % 2 := by omega
        rw [if_pos (by omega), if_pos hin, hparity]
      · rw [if_neg (by omega), if_neg hin, Function.update_of_ne hcolor,
          Function.update_of_ne hchar]

theorem cleared_update (lo : Nat) {hi : Nat} (m : ByteMem) (hlo : lo + 2 ≤ hi) :
    cleared (lo + 2) hi (Function.update m lo blank) = cleared lo hi m := by
  funext a
  unfold cleared
  by_cases ha : a = lo
  · subst ha
    rw [if_neg (by omega), if_pos (by omega), Function.update_self]
  · rw [Function.update_of_ne ha]
    by_cases hin : lo ≤ a ∧ a < hi ∧ (a - lo) % 2 = 0
    · rw [if_pos (by omega), if_pos hin]
    · rw [if_neg (by omega), if_neg hin]

theorem scrollCols_eq (c : Console) {row left col : Nat} (hrow : row + 1 < consoleLines)
    (hcol : col + left ≤ consoleCols) :
    scrollCols row left col c = .ok { c with
      memory := moved (videoStart + (row * consoleCols + col))
        (videoStart + (row * consoleCols + col + left)) c.memory } := by
  induction left generalizing col c with
  | zero =>
      have hsame : moved (videoStart + (row * consoleCols + col))
          (videoStart + (row * consoleCols + col + 0)) c.memory = c.memory :=
        funext fun a => if_neg (by omega)
      rw [scrollCols, hsame]
  | succ left ih =>
      have hbelow : OnScreen (videoStart + (row * consoleCols + col + consoleCols)) := by
        have hnext := onScreen_of_lt hrow (show col < consoleCols by omega)
        rwa [Nat.succ_mul, Nat.add_right_comm] at hnext
      have hpos : OnScreen (videoStart + (row * consoleCols + col)) :=
        onScreen_of_lt (Nat.lt_of_succ_lt hrow) (by omega)
      have hsource : videoStart + (row * consoleCols + col + consoleCols) =
          videoStart + (row * consoleCols + col) + consoleCols := by omega
      have hnext : videoStart + (row * consoleCols + (col + 1)) =
          videoStart + (row * consoleCols + col) + 1 := by omega
      have hend : row * consoleCols + (col + 1) + left = row * consoleCols + col + (left + 1) := by
        omega
      refine Except.bind_eq_ok.mpr ⟨_, c.load_ok hbelow, ?_⟩
      refine Except.bind_eq_ok.mpr ⟨_, c.store_ok _ hpos, ?_⟩
      rw [ih _ (by omega), hend, hnext, hsource, moved_update c.memory (by omega) (by omega)]

theorem scrollRows_eq (c : Console) (left row : Nat) (h : row + left < consoleLines) :
    scrollRows left row c = .ok { c with
      memory := moved (videoStart + row * consoleCols)
        (videoStart + (row + left) * consoleCols) c.memory } := by
  induction left generalizing row c with
  | zero =>
      have hsame : moved (videoStart + row * consoleCols)
          (videoStart + (row + 0) * consoleCols) c.memory = c.memory :=
        funext fun a => if_neg (by rw [Nat.add_zero]; omega)
      rw [scrollRows, hsame]
  | succ left ih =>
      have hrow : row * consoleCols + 0 + consoleCols = (row + 1) * consoleCols := by
        rw [Nat.succ_mul, Nat.add_zero]
      have hrest : row + (left + 1) = row + 1 + left := by omega
      have hlo : row * consoleCols ≤ (row + 1) * consoleCols := Nat.mul_le_mul_right _ (by omega)
      have hhi : (row + 1) * consoleCols ≤ (row + 1 + left) * consoleCols :=
        Nat.mul_le_mul_right _ (by omega)
      refine Except.bind_eq_ok.mpr ⟨_, scrollCols_eq c (by omega) (by omega), ?_⟩
      rw [ih _ _ (by omega), hrow, hrest, Nat.add_zero (row * consoleCols),
        moved_moved c.memory (Nat.add_le_add_left hlo _) (Nat.add_le_add_left hhi _)]

theorem blankCols_eq (c : Console) {row left i : Nat} (hrow : row < consoleLines)
    (hi : i + 2 * left ≤ consoleCols) :
    blankCols (videoStart + row * consoleCols) left i c = .ok { c with
      memory := blanked (videoStart + row * consoleCols + i)
        (videoStart + row * consoleCols + i + 2 * left) c.currentColor c.memory } := by
  induction left generalizing i c with
  | zero =>
      have hsame : blanked (videoStart + row * consoleCols + i)
          (videoStart + row * consoleCols + i + 2 * 0) c.currentColor c.memory = c.memory :=
        funext fun a => if_neg (by omega)
      rw [blankCols, hsame]
  | succ left ih =>
      have hchar : OnScreen (videoStart + row * consoleCols + i) := by
        rw [Nat.add_assoc]
        exact onScreen_of_lt hrow (by omega)
      have hcolor : OnScreen (videoStart + row * consoleCols + (i + 1)) := by
        rw [Nat.add_assoc]
        exact onScreen_of_lt hrow (by omega)
      have hend : videoStart + row * consoleCols + i + 2 * (left + 1) =
          videoStart + row * consoleCols + (i + 2) + 2 * left := by omega
      refine Except.bind_eq_ok.mpr ⟨_, c.store_ok _ hchar, ?_⟩
      refine Except.bind_eq_ok.mpr ⟨_, store_ok _ _ hcolor, ?_⟩
      rw [ih _ (by omega), hend, ← blanked_update (videoStart + row * consoleCols + i)
        c.memory c.currentColor (by omega)]
      rfl

theorem clearCells_eq (c : Console) (left : Nat) {p : Nat} (hp : videoStart ≤ p)
    (hend : p + 2 * left ≤ videoStart + consoleLines * consoleCols) :
    clearCells left p c = .ok { c with memory := cleared p (p + 2 * left) c.memory } := by
  induction left generalizing p c with
  | zero =>
      have hsame : cleared p (p + 2 * 0) c.memory = c.memory := funext fun a => if_neg (by omega)
      rw [clearCells, hsame]
  | succ left ih =>
      have hrest : p + 2 * (left + 1) = p + 2 + 2 * left := by omega
      refine Except.bind_eq_ok.mpr ⟨_, c.store_ok _ ⟨hp, by omega⟩, ?_⟩
      rw [ih _ (by omega) (by omega), hrest, ← cleared_update p c.memory (by omega)]

/-- What `scroll` leaves behind. -/
structure Scrolled (c c' : Console) : Prop where
  current : c'.current = c.current - consoleCols
  rows : ∀ a, videoStart ≤ a → a < videoStart + (consoleLines - 1) * consoleCols →
    c'.memory a = c.memory (a + consoleCols)
  lastLine : ∀ j, 2 * j < consoleCols →
    c'.memory (videoStart + (consoleLines - 1) * consoleCols + 2 * j) = blank
  frame : ∀ a, ¬OnScreen a → c'.memory a = c.memory a

theorem scroll_spec (c : Console) : Except.Total c.scroll (Scrolled c) := by
  have hrows := scrollRows_eq c (consoleLines - 1) 0 (by decide)
  rw [Nat.zero_mul, Nat.zero_add, Nat.add_zero] at hrows
  have hlines : consoleLines * consoleCols = (consoleLines - 1) * consoleCols + consoleCols := rfl
  refine ⟨_, Except.bind_eq_ok.mpr ⟨_, hrows,
    Except.bind_eq_ok.mpr ⟨_, blankCols_eq _ (by decide) (by decide), rfl⟩⟩, ?_⟩
  constructor
  · rfl
  · intro a hlo hhi
    dsimp only
    rw [blanked, if_neg (by omega), moved, if_pos (by omega)]
  · intro j hj
    have hin : 2 * j < 2 * (consoleCols / 2) := hj
    dsimp only
    rw [blanked, if_pos (by omega), if_pos (by omega)]
  · intro a hout
    unfold OnScreen at hout
    dsimp only
    rw [blanked, if_neg (by omega), moved, if_neg (by omega)]

/-! ## The terminal -/

/-- Nothing but the screen differs. -/
def SameOutside (c c' : Console) : Prop := ∀ a, ¬OnScreen a → c'.memory a = c.memory a

theorem SameOutside.trans {a b c : Console} (h : SameOutside a b) (h' : SameOutside b c) :
    SameOutside a c := fun x hx => (h' x hx).trans (h x hx)

/-- The characters in memory are those of the terminal, and the line below is blank. -/
structure Displays (m : ByteMem) (t : Terminal 24 80 (BitVec 8)) : Prop where
  cell : ∀ i j, m (videoStart + i.val * consoleCols + 2 * j.val) = t.cell i j
  hidden : ∀ j, 2 * j < consoleCols →
    m (videoStart + (consoleLines - 1) * consoleCols + 2 * j) = blank

structure Shows (c : Console) (t : Terminal 24 80 (BitVec 8)) : Prop where
  displays : Displays c.memory t
  cursor : c.current = videoStart + 2 * t.offset

/-- What a character means to the terminal. -/
def key (ch : BitVec 8) : Terminal.Input (BitVec 8) :=
  if ch = newline then .newline else if ch = backspace then .backspace else .char ch

variable {c c' : Console} {t : Terminal 24 80 (BitVec 8)}

theorem Displays.set {m : ByteMem} (h : Displays m t) (ch v : BitVec 8) :
    Displays (Function.update (Function.update m (videoStart + 2 * t.offset) ch)
      (videoStart + 2 * t.offset + 1) v) (t.set ch) := by
  have hrow := t.row.isLt
  have hcol := t.col.isLt
  constructor
  · intro i j
    have hj := j.isLt
    unfold Terminal.offset consoleCols
    rw [Function.update_of_ne (by omega)]
    by_cases heq : i = t.row ∧ j = t.col
    · obtain ⟨rfl, rfl⟩ := heq
      have haddr : videoStart + t.row.val * 160 + 2 * t.col.val =
          videoStart + 2 * (t.row.val * 80 + t.col.val) := by omega
      rw [haddr, Function.update_self, Terminal.set_cell_self]
    · have hne : ¬(i.val = t.row.val ∧ j.val = t.col.val) :=
        fun hv => heq ⟨Fin.ext hv.1, Fin.ext hv.2⟩
      rw [Function.update_of_ne (by omega), Terminal.set_cell_of_ne t ch heq]
      exact h.cell i j
  · intro j hj
    rw [Function.update_of_ne, Function.update_of_ne, h.hidden j hj]
    all_goals
      unfold Terminal.offset consoleCols consoleLines
      omega

theorem Displays.scroll (h : Displays c.memory t) (hs : Scrolled c c') :
    Displays c'.memory (t.scroll blank) := by
  constructor
  · intro i j
    have hi := i.isLt
    have hj := j.isLt
    by_cases hlast : i.val + 1 < 24
    · have hbelow : videoStart + i.val * consoleCols + 2 * j.val + consoleCols =
          videoStart + (i.val + 1) * consoleCols + 2 * j.val := by
        unfold consoleCols
        omega
      rw [hs.rows _ (by omega) (by unfold consoleLines consoleCols; omega), hbelow,
        Terminal.scroll_cell_of_lt t blank j hlast]
      exact h.cell ⟨i.val + 1, hlast⟩ j
    · -- The line that came in is the one that was not seen.
      have hbelow : videoStart + i.val * consoleCols + 2 * j.val + consoleCols =
          videoStart + (consoleLines - 1) * consoleCols + 2 * j.val := by
        unfold consoleCols consoleLines
        omega
      rw [hs.rows _ (by omega) (by unfold consoleLines consoleCols; omega), hbelow,
        Terminal.scroll_cell_last t blank j hlast]
      exact h.hidden j.val (by unfold consoleCols; omega)
  · exact hs.lastLine

theorem scrollWhile_above {fuel : Nat}
    (h : c.current < videoStart + (consoleLines - 1) * consoleCols) :
    scrollWhile (fuel + 1) c = .ok c := if_neg (Nat.not_le_of_lt h)

theorem scrollWhile_last {fuel : Nat}
    (h : c.current = videoStart + (consoleLines - 1) * consoleCols) :
    Except.Total (scrollWhile (fuel + 2) c) (Scrolled c) := by
  rw [scrollWhile, if_pos (Nat.le_of_eq h.symm)]
  refine c.scroll_spec.bind fun c' hs => ?_
  have habove : c'.current < videoStart + (consoleLines - 1) * consoleCols := by
    rw [hs.current, h]
    unfold consoleLines consoleCols
    omega
  rw [scrollWhile_above habove]
  exact .ok hs

/-- The rest of `console_put` once the cursor is at the start of the next row. -/
theorem scrollWhile_newline (h : Displays c.memory t)
    (hcur : c.current = videoStart + (t.row.val + 1) * consoleCols) :
    Except.Total (c.scrollWhile (c.current + 1)) fun c' =>
      Shows c' (t.newline blank) ∧ SameOutside c c' := by
  unfold Terminal.newline
  split
  · next hr =>
      have habove : c.current < videoStart + (consoleLines - 1) * consoleCols := by
        rw [hcur]
        unfold consoleLines consoleCols
        omega
      rw [scrollWhile_above habove]
      refine .ok ⟨⟨⟨h.cell, h.hidden⟩, ?_⟩, fun a _ => rfl⟩
      rw [hcur]
      unfold Terminal.offset consoleCols
      simp only
      omega
  · next hr =>
      have hrow := t.row.isLt
      have hlast : c.current = videoStart + (consoleLines - 1) * consoleCols := by
        rw [hcur]
        unfold consoleLines consoleCols
        omega
      have hpos : 1 ≤ c.current := by
        rw [hlast]
        exact Nat.le_trans one_le_videoStart (Nat.le_add_right _ _)
      obtain ⟨fuel, hfuel⟩ : ∃ fuel, c.current + 1 = fuel + 2 := ⟨c.current - 1, by omega⟩
      rw [hfuel]
      refine (scrollWhile_last hlast).mono fun c' hs => ⟨⟨?_, ?_⟩, hs.frame⟩
      · have hd := h.scroll hs
        exact ⟨hd.cell, hd.hidden⟩
      · rw [hs.current, hlast]
        unfold Terminal.offset Terminal.scroll consoleLines consoleCols
        simp only
        omega

theorem putCell_ok (ch : BitVec 8) (h : c.current = videoStart + 2 * t.offset) :
    c.putCell ch = .ok { c with
      memory := Function.update (Function.update c.memory c.current ch) (c.current + 1)
        c.currentColor } := by
  have hlt : t.offset < 1920 := t.offset_lt
  have hchar : OnScreen c.current := by
    unfold OnScreen consoleLines consoleCols
    omega
  have hcolor : OnScreen (c.current + 1) := by
    unfold OnScreen consoleLines consoleCols
    omega
  exact Except.bind_eq_ok.mpr ⟨_, c.store_ok ch hchar, store_ok _ _ hcolor⟩

/-- The state with both stores done, before the cursor moves on. -/
theorem Shows.cell_set (h : Shows c t) (ch : BitVec 8) :
    Displays (Function.update (Function.update c.memory c.current ch) (c.current + 1)
      c.currentColor) (t.set ch) := by
  rw [h.cursor]
  exact h.displays.set ch c.currentColor

theorem putCell_sameOutside (h : c.current = videoStart + 2 * t.offset) {ch : BitVec 8} {n : Nat} :
    SameOutside c { c with
      memory := Function.update (Function.update c.memory c.current ch) (c.current + 1)
        c.currentColor
      current := n } := by
  intro a ha
  have hlt : t.offset < 1920 := t.offset_lt
  unfold OnScreen consoleLines consoleCols at ha
  show Function.update (Function.update _ _ _) _ _ a = _
  rw [Function.update_of_ne (by omega), Function.update_of_ne (by omega)]

@[simp] theorem outb_memory (port : BitVec 16) (v : BitVec 8) (c : Console) :
    (c.outb port v).memory = c.memory := rfl

@[simp] theorem outb_current (port : BitVec 16) (v : BitVec 8) (c : Console) :
    (c.outb port v).current = c.current := rfl

@[simp] theorem setPosition_memory (position : BitVec 16) (c : Console) :
    (c.setPosition position).memory = c.memory := by
  unfold setPosition
  split <;> simp only [outb_memory]

@[simp] theorem setPosition_current (position : BitVec 16) (c : Console) :
    (c.setPosition position).current = c.current := by
  unfold setPosition
  split <;> simp only [outb_current]

theorem setCursor_memory (c : Console) : c.setCursor.memory = c.memory := by
  simp only [setCursor, setPosition_memory, outb_memory]

theorem setCursor_current (c : Console) : c.setCursor.current = c.current := by
  simp only [setCursor, setPosition_current, outb_current]

theorem Shows.setCursor (h : Shows c t) : Shows c.setCursor t :=
  ⟨c.setCursor_memory ▸ h.displays, c.setCursor_current ▸ h.cursor⟩

/-- The rounding takes the cursor to the start of the next row. -/
theorem newline_cursor (h : Shows c t) :
    videoStart + (c.current + consoleCols - videoStart) / consoleCols * consoleCols =
      videoStart + (t.row.val + 1) * consoleCols := by
  have hcol := t.col.isLt
  have hcursor := h.cursor
  have hdist : c.current + consoleCols - videoStart =
      2 * t.col.val + (t.row.val + 1) * consoleCols := by
    unfold Terminal.offset at hcursor
    unfold consoleCols
    omega
  have hquot : (2 * t.col.val + (t.row.val + 1) * consoleCols) / consoleCols = t.row.val + 1 := by
    unfold consoleCols
    omega
  rw [hdist, hquot]

/-- A cell back, or nowhere from the first one. -/
theorem retreat_cursor (h : Shows c t) :
    (if c.current - 2 < videoStart then videoStart else c.current - 2) =
      videoStart + 2 * t.retreat.offset := by
  have hcursor := h.cursor
  rw [Terminal.retreat_offset]
  split <;> omega

theorem Shows.retreat (h : Shows c t) :
    Shows { c with current := videoStart + 2 * t.retreat.offset } t.retreat := by
  refine ⟨⟨fun i j => ?_, h.displays.hidden⟩, rfl⟩
  rw [Terminal.retreat_cell]
  exact h.displays.cell i j

/-- The switch and the loop of `console_put`. -/
theorem putChar_spec (h : Shows c t) (ch : BitVec 8) :
    Except.Total (c.putChar ch >>= fun c => c.scrollWhile (c.current + 1)) fun c' =>
      Shows c' (t.input blank (key ch)) ∧ SameOutside c c' := by
  have hcursor := h.cursor
  unfold putChar key
  split
  · dsimp only
    rw [newline_cursor h, Except.ok_bind]
    exact scrollWhile_newline ⟨h.displays.cell, h.displays.hidden⟩ rfl
  · split
    · have hset := h.retreat.cell_set blank
      have hlt : t.retreat.offset < 1920 := t.retreat.offset_lt
      have habove : videoStart + 2 * t.retreat.offset <
          videoStart + (consoleLines - 1) * consoleCols := by
        unfold consoleLines consoleCols
        omega
      dsimp only
      rw [retreat_cursor h, putCell_ok blank h.retreat.cursor, Except.ok_bind,
        scrollWhile_above habove]
      exact .ok ⟨⟨hset, rfl⟩, putCell_sameOutside h.retreat.cursor⟩
    · have hset := h.cell_set ch
      rw [putCell_ok ch h.cursor, Except.ok_bind]
      show Except.Total (.ok _ >>= _) _
      rw [Except.ok_bind]
      unfold Terminal.input Terminal.advance
      dsimp only
      split
      · next hc =>
          have hrow := t.row.isLt
          have hc' : t.col.val + 1 < 80 := hc
          have hnext : c.current + 2 = videoStart + 2 * (t.row.val * 80 + (t.col.val + 1)) := by
            unfold Terminal.offset at hcursor
            omega
          have habove : c.current + 2 < videoStart + (consoleLines - 1) * consoleCols := by
            rw [hnext]
            unfold consoleLines consoleCols
            omega
          rw [scrollWhile_above habove]
          exact .ok ⟨⟨⟨hset.cell, hset.hidden⟩, hnext⟩, putCell_sameOutside h.cursor⟩
      · next hc =>
          have hcol := t.col.isLt
          have hc' : ¬t.col.val + 1 < 80 := hc
          have hnext : c.current + 2 = videoStart + (t.row.val + 1) * consoleCols := by
            unfold Terminal.offset at hcursor
            unfold consoleCols
            omega
          refine (scrollWhile_newline (t := t.set ch) hset hnext).mono fun c' hc' => ⟨hc'.1, ?_⟩
          exact (putCell_sameOutside h.cursor).trans hc'.2

/-- What `console_put` does is what the terminal does. -/
theorem put_spec (h : Shows c t) (ch : BitVec 8) :
    Except.Total (c.put ch) fun c' =>
      Shows c' (t.input blank (key ch)) ∧ SameOutside c c' := by
  have hserial : Shows (c.serialPut ch) t := ⟨h.displays, h.cursor⟩
  have hmain := putChar_spec hserial ch
  unfold put
  rw [← bind_assoc]
  refine hmain.bind fun c' ⟨hshows, hsame⟩ => .ok ⟨hshows.setCursor, fun a ha => ?_⟩
  rw [setCursor_memory]
  exact hsame a ha

/-- After `console_clear_screen` an empty terminal is on the screen. -/
theorem clearScreen_spec (c : Console) :
    Except.Total c.clearScreen fun c' =>
      Shows c' (Terminal.clear blank (by decide) (by decide)) ∧ SameOutside c c' := by
  have hclear := clearCells_eq c (consoleLines * consoleCols / 2) (Nat.le_refl videoStart)
    (by omega)
  refine ⟨_, Except.bind_eq_ok.mpr ⟨_, hclear, rfl⟩, Shows.setCursor ⟨⟨?_, ?_⟩, rfl⟩, ?_⟩
  · intro i j
    have hi := i.isLt
    have hj := j.isLt
    dsimp only
    unfold consoleLines consoleCols
    rw [cleared, if_pos (by omega)]
    rfl
  · intro j hj
    unfold consoleLines consoleCols at *
    dsimp only
    rw [cleared, if_pos (by omega)]
  · intro a ha
    unfold OnScreen at ha
    rw [setCursor_memory]
    dsimp only
    rw [cleared, if_neg (by omega)]

/-- The console and the terminal get the same characters. Every store was to the screen, or there
would be a trap. -/
theorem exec_put (h : Shows c t) (chars : List (BitVec 8)) :
    Except.Total (Transition.exec (fun c ch => c.put ch) c chars) fun c' =>
      Shows c' (chars.foldl (fun t ch => t.input blank (key ch)) t) ∧ SameOutside c c' := by
  induction chars generalizing c t with
  | nil => exact .ok ⟨h, fun _ _ => rfl⟩
  | cons ch chars ih =>
      refine (put_spec h ch).bind fun c' ⟨hshows, hsame⟩ => ?_
      exact (ih hshows).mono fun c'' ⟨hshows', hsame'⟩ => ⟨hshows', hsame.trans hsame'⟩

/-- From `console_clear_screen` on, after any characters, the screen is that of the terminal which
got them, with the cursor on an even offset above the last line, and no byte elsewhere was
written. -/
theorem console_refines (c : Console) (chars : List (BitVec 8)) :
    ∃ c₁ c₂, c.clearScreen = .ok c₁ ∧ Transition.exec (fun c ch => c.put ch) c₁ chars = .ok c₂ ∧
      Shows c₂ (chars.foldl (fun t ch => t.input blank (key ch))
        (Terminal.clear blank (by decide) (by decide))) ∧
      videoStart ≤ c₂.current ∧ c₂.current < videoStart + 24 * 160 ∧
      (c₂.current - videoStart) % 2 = 0 ∧
      ∀ a, ¬(videoStart ≤ a ∧ a < videoStart + 4000) → c₂.memory a = c.memory a := by
  obtain ⟨c₁, hclear, hshows₁, hsame₁⟩ := c.clearScreen_spec
  obtain ⟨c₂, hexec, hshows₂, hsame₂⟩ := exec_put hshows₁ chars
  have hcursor := hshows₂.cursor
  have hlt := (chars.foldl (fun t ch => t.input blank (key ch))
    (Terminal.clear blank (by decide) (by decide) : Terminal 24 80 (BitVec 8))).offset_lt
  refine ⟨c₁, c₂, hclear, hexec, hshows₂, by omega, by omega, by omega, fun a ha => ?_⟩
  exact hsame₁.trans hsame₂ a ha

end Console

end BadOs
