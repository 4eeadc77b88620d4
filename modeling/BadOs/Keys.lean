import BadOs.Keyboard
import BadOs.Ports
import BadOs.Print

/-!
# What is typed

`read_key` gets the codes of keys one after the other. It keeps track of the keys that change what
others mean, prints characters, and tells the keyboard which of its lights are on.
-/

namespace BadOs

/-! ## `keyboard.c` -/

inductive KeyState where
  | up
  | down
  deriving DecidableEq

def asciiBytes (chars : List Char) : List (BitVec 8) := chars.map fun c => BitVec.ofNat 8 c.toNat

/-- With the zero at the end. -/
def scancode : List (BitVec 8) := asciiBytes
  ['\x00', '\x1b', '1', '2', '3', '4', '5', '6', '7', '8', '9', '0', '-', '=', '\x08',
    '\t', 'q', 'w', 'e', 'r', 't', 'y', 'u', 'i', 'o', 'p', '[', ']', '\n',
    '\x00', 'a', 's', 'd', 'f', 'g', 'h', 'j', 'k', 'l', ';', '\x27', '\x60',
    '\x00', '\\', 'z', 'x', 'c', 'v', 'b', 'n', 'm', ',', '.', '/', '\x00',
    '*', '\x00', ' ', '\x00', 'F', 'F', 'F', 'F', 'F', 'F', 'F', 'F', 'F', 'F', '\x00', '\x00',
    '7', '8', '9', '4', '5', '6', '1', '2', '3', '0', '.',
    '\x00', '\x00', '\x00', 'F', 'F', '\x00', '\x00', '\x00', '\x00']

def scancodeCap : List (BitVec 8) := asciiBytes
  ['\x00', '\x00', '!', '@', '#', '$', '%', '^', '&', '*', '(', ')', '_', '+', '\x08',
    '\t', 'Q', 'W', 'E', 'R', 'T', 'Y', 'U', 'I', 'O', 'P', '\x7b', '\x7d', '\n',
    '\x00', 'A', 'S', 'D', 'F', 'G', 'H', 'J', 'K', 'L', ':', '\x22', '~',
    '\x00', '|', 'Z', 'X', 'C', 'V', 'B', 'N', 'M', '<', '>', '?', '\x00',
    '*', '\x00', ' ', '\x00', 'F', 'F', 'F', 'F', 'F', 'F', 'F', 'F', 'F', 'F', '\x00', '\x00',
    '7', '8', '9', '4', '5', '6', '1', '2', '3', '0', '.',
    '\x00', '\x00', '\x00', 'F', 'F', '\x00', '\x00', '\x00', '\x00']

example : scancode.length = 91 ∧ scancodeCap.length = 91 := by decide

/-- The static variables. -/
structure Keys where
  shift : KeyState
  control : KeyState
  alt : KeyState
  capsEnabled : Bool
  numEnabled : Bool
  scrollEnabled : Bool
  deriving DecidableEq

def Keys.start : Keys := ⟨.up, .up, .up, false, false, false⟩

/-- The keys and the console, and for the record the codes that were read. -/
structure Desk where
  keys : Keys
  console : Console
  codes : List (BitVec 8)

/-- A trap ends the program. -/
def orStuck {P α : Type} : Except Trap α → PortProg P α
  | .ok x => pure x
  | .error _ => .stuck

def waitForKeyboard : (fuel : Nat) → PortProg (BitVec 16) Unit
  | 0 => .stuck
  | fuel + 1 => do
      let status ← inb (0x64 : BitVec 16)
      if status &&& 0x02 ≠ 0 then waitForKeyboard fuel else return ()

/-- The `state` of `updateLedState`. -/
def ledState (keys : Keys) : BitVec 8 :=
  (if keys.capsEnabled then 4 else 0) ||| (if keys.numEnabled then 2 else 0) |||
    if keys.scrollEnabled then 1 else 0

def updateLedState (fuel : Nat) (keys : Keys) : PortProg (BitVec 16) Unit := do
  waitForKeyboard fuel
  outb (0x60 : BitVec 16) 0xed
  waitForKeyboard fuel
  outb (0x60 : BitVec 16) (ledState keys)

/-- `toggle` is what the key does when it is pressed. -/
def lockKey (toggle : Keys → Keys) (fuel : Nat) (state : KeyState) (keys : Keys) :
    PortProg (BitVec 16) Keys :=
  if state = .down then do
    let keys := toggle keys
    updateLedState fuel keys
    return keys
  else return keys

def numLock : (fuel : Nat) → KeyState → Keys → PortProg (BitVec 16) Keys :=
  lockKey fun keys => { keys with numEnabled := !keys.numEnabled }

def scrollLock : (fuel : Nat) → KeyState → Keys → PortProg (BitVec 16) Keys :=
  lockKey fun keys => { keys with scrollEnabled := !keys.scrollEnabled }

def capsLock : (fuel : Nat) → KeyState → Keys → PortProg (BitVec 16) Keys :=
  lockKey fun keys => { keys with capsEnabled := !keys.capsEnabled }

/-- `console_set_color`. -/
def consoleSetColor (fore back : BitVec 8) (c : Console) : Console :=
  { c with currentColor := back <<< 4 ||| fore }

section

-- what is on the stack below the printers, and what a breakpoint prints after these codes
variable (junk : Nat → ByteMem) (dump : List (BitVec 8) → List (BitVec 8))

/-- `warn`; `what` ends with a zero. -/
def warn (what : List (BitVec 8)) (c : Console) : Except Trap Console := do
  let c := consoleSetColor 14 0 c
  let c ← consolePrintString Console.put junk 32
    (asciiBytes ['W', 'A', 'R', 'N', ' ', ':', ' ', '%', 's', '\n'] ++ [0]) [.string what] c
  return consoleSetColor 7 0 c

/-- `fkey`; the handler of the breakpoint prints. -/
def fkey (_f : BitVec 8) (state : KeyState) (d : Desk) : PortProg (BitVec 16) Desk :=
  if state = .down then do
    let console ← orStuck (putAll Console.put (dump d.codes) d.console)
    return { d with console }
  else return d

def keyboardError : List (BitVec 8) := asciiBytes
  ['k', 'e', 'y', 'b', 'o', 'a', 'r', 'd', ' ', 'e', 'r', 'r', 'o', 'r', '\n']

/-- The `default` of `read_key`. As an unsigned number of 64 bits, a negative `char` is not below
`sizeof(scancode)`. -/
def typeKey (u : BitVec 8) (d : Desk) : PortProg (BitVec 16) Desk :=
  if u.signExtend 64 < BitVec.ofNat 64 scancode.length then do
    let table :=
      if d.keys.capsEnabled ^^ decide (d.keys.shift = .down) then scancodeCap else scancode
    let k := table.getD u.toNat 0
    if k ≠ 0 then
      let console ← orStuck (d.console.put k)
      return { d with console }
    else return d
  else return d

def readKey (fuel : Nat) (u : BitVec 8) (d : Desk) : PortProg (BitVec 16) Desk :=
  let dir : KeyState := if u &&& 0x80 ≠ 0 then .up else .down
  let code := u &&& 0x7f
  if code = 0x1d then pure { d with keys := { d.keys with control := dir } }
  else if code = 0x38 then pure { d with keys := { d.keys with alt := dir } }
  else if code = 0x3a then do
    let keys ← capsLock fuel dir d.keys
    return { d with keys }
  else if 0x3b ≤ code ∧ code ≤ 0x44 then fkey dump (u - 0x3b) dir d
  else if code = 0x45 then do
    let keys ← numLock fuel dir d.keys
    return { d with keys }
  else if code = 0x46 then do
    let keys ← scrollLock fuel dir d.keys
    return { d with keys }
  else if code = 0x2a ∨ code = 0x36 then pure { d with keys := { d.keys with shift := dir } }
  else if code = 0x00 ∨ code = 0xfc ∨ code = 0xfd ∨ code = 0xfe ∨ code = 0xff then do
    let console ← orStuck (warn junk (keyboardError ++ [0]) d.console)
    return { d with console }
  else typeKey u d

/-- The bodies of the loop of `read_keys`, for codes that were taken out of the buffer. -/
def readKeys (fuel : Nat) : List (BitVec 8) → Desk → PortProg (BitVec 16) Desk
  | [], d => pure d
  | u :: us, d => do
      let d ← readKey junk dump fuel u d
      readKeys fuel us { d with codes := d.codes ++ [u] }

end

/-! ## The keyboard -/

/-- The keyboard takes a byte after some time, and as long the controller says that there is one. A
byte that is sent meanwhile is lost. -/
structure KeyboardController where
  busy : Nat
  taken : List (BitVec 8)
  lost : Nat

/-- After the byte with number `k` the controller is busy for `delay k` reads of its status. -/
def KeyboardController.respond (delay : Nat → Nat) : (a : PortAccess (BitVec 16)) →
    KeyboardController → PortAccess.Answer a × KeyboardController
  | .inb port, k =>
      if port = 0x64 then (if 0 < k.busy then 0x02 else 0, { k with busy := k.busy - 1 })
      else (0xff, k)
  | .outb port v, k =>
      ((), if port = 0x60 then
        if k.busy = 0 then { k with busy := delay k.taken.length, taken := k.taken ++ [v] }
        else { k with lost := k.lost + 1 }
      else k)
  | .inw _, k => (0xffff, k)
  | .inl _, k => (0xffffffff, k)

/-! ## What the codes mean -/

/-- A key was pressed an odd number of times. -/
def toggled (key : BitVec 8) (codes : List (BitVec 8)) : Bool := decide (codes.count key % 2 = 1)

/-- One of these keys was pressed or released. -/
def isOf (keys : List (BitVec 8)) (u : BitVec 8) : Bool := keys.contains (u &&& 0x7f)

/-- What was last heard of these keys is that one of them was pressed. -/
def held (keys codes : List (BitVec 8)) : Bool :=
  match (codes.filter (isOf keys)).getLast? with
  | some u => !u.msb
  | none => false

def shiftKeys : List (BitVec 8) := [0x2a, 0x36]

/-- Caps lock, num lock or scroll lock is pressed. -/
def IsLock (u : BitVec 8) : Prop := u = 0x3a ∨ u = 0x45 ∨ u = 0x46

instance (u : BitVec 8) : Decidable (IsLock u) := inferInstanceAs (Decidable (_ ∨ _))

/-- The lights are on as often as their keys were pressed. -/
def lights (codes : List (BitVec 8)) : BitVec 8 :=
  (if toggled 0x3a codes then 4 else 0) ||| (if toggled 0x45 codes then 2 else 0) |||
    if toggled 0x46 codes then 1 else 0

/-- The variables go with the codes so far. -/
structure Tracks (keys : Keys) (codes : List (BitVec 8)) : Prop where
  shift : keys.shift = .down ↔ held shiftKeys codes = true
  control : keys.control = .down ↔ held [0x1d] codes = true
  alt : keys.alt = .down ↔ held [0x38] codes = true
  caps : keys.capsEnabled = toggled 0x3a codes
  num : keys.numEnabled = toggled 0x45 codes
  scroll : keys.scrollEnabled = toggled 0x46 codes

def warning : List (BitVec 8) :=
  asciiBytes ['W', 'A', 'R', 'N', ' ', ':', ' '] ++ keyboardError ++ [newline]

/-- The character of a key, or zero. -/
def character (codes : List (BitVec 8)) (u : BitVec 8) : BitVec 8 :=
  (if toggled 0x3a codes ^^ held shiftKeys codes then scancodeCap else scancode).getD u.toNat 0

/-- What is typed with one more code. -/
def typedBy (dump : List (BitVec 8) → List (BitVec 8)) (codes : List (BitVec 8)) (u : BitVec 8) :
    List (BitVec 8) :=
  if u &&& 0x7f = 0 then warning
  else if u.msb then []
  else if 0x3b ≤ u ∧ u ≤ 0x44 then dump codes
  else if character codes u = 0 then []
  else [character codes u]

/-- What is typed with these codes after others. -/
def typed (dump : List (BitVec 8) → List (BitVec 8)) (codes : List (BitVec 8)) :
    List (BitVec 8) → List (BitVec 8)
  | [] => []
  | u :: us => typedBy dump codes u ++ typed dump (codes ++ [u]) us

/-- What the keyboard is told. -/
def told (codes : List (BitVec 8)) : List (BitVec 8) → List (BitVec 8)
  | [] => []
  | u :: us =>
      (if IsLock u then [0xed, lights (codes ++ [u])] else []) ++
        told (codes ++ [u]) us

theorem toggled_concat (key u : BitVec 8) (codes : List (BitVec 8)) :
    toggled key (codes ++ [u]) = (toggled key codes ^^ decide (u = key)) := by
  unfold toggled
  rw [List.count_append, List.count_singleton]
  by_cases h : u = key
  · subst h
    simp only [beq_self_eq_true, if_true, decide_true, Bool.xor_true]
    rw [← decide_not, decide_eq_decide]
    omega
  · have hne : (u == key) = false := beq_eq_false_iff_ne.mpr h
    simp [hne, h]

theorem held_concat (keys : List (BitVec 8)) (u : BitVec 8) (codes : List (BitVec 8)) :
    held keys (codes ++ [u]) = if isOf keys u then !u.msb else held keys codes := by
  unfold held
  rw [List.filter_append]
  by_cases h : isOf keys u = true
  · rw [List.filter_cons_of_pos h, List.filter_nil, List.getLast?_concat, if_pos h]
  · rw [List.filter_cons_of_neg h, List.filter_nil, List.append_nil, if_neg h]

/-- A code is that of a key with or without the highest bit. -/
def direction (u : BitVec 8) : KeyState := if u &&& 0x80 ≠ 0 then .up else .down

/-- The variables after one more code. -/
def nextKeys (u : BitVec 8) (keys : Keys) : Keys where
  shift := if isOf shiftKeys u then direction u else keys.shift
  control := if isOf [0x1d] u then direction u else keys.control
  alt := if isOf [0x38] u then direction u else keys.alt
  capsEnabled := keys.capsEnabled ^^ decide (u = 0x3a)
  numEnabled := keys.numEnabled ^^ decide (u = 0x45)
  scrollEnabled := keys.scrollEnabled ^^ decide (u = 0x46)

theorem direction_eq_down (u : BitVec 8) : direction u = .down ↔ (!u.msb) = true := by
  revert u
  decide

theorem Tracks.next {keys : Keys} {codes : List (BitVec 8)} (h : Tracks keys codes)
    (u : BitVec 8) : Tracks (nextKeys u keys) (codes ++ [u]) := by
  have hheld : ∀ (ks : List (BitVec 8)) (state : KeyState),
      (state = .down ↔ held ks codes = true) →
      ((if isOf ks u then direction u else state) = .down ↔
        held ks (codes ++ [u]) = true) := by
    intro ks state hstate
    rw [held_concat]
    split
    · exact direction_eq_down u
    · exact hstate
  constructor
  · exact hheld shiftKeys keys.shift h.shift
  · exact hheld [0x1d] keys.control h.control
  · exact hheld [0x38] keys.alt h.alt
  · rw [toggled_concat, ← h.caps]
    rfl
  · rw [toggled_concat, ← h.num]
    rfl
  · rw [toggled_concat, ← h.scroll]
    rfl

theorem Tracks.start : Tracks .start [] := by
  constructor <;> decide

theorem Tracks.ledState {keys : Keys} {codes : List (BitVec 8)} (h : Tracks keys codes) :
    ledState keys = lights codes := by
  unfold BadOs.ledState lights
  rw [h.caps, h.num, h.scroll]

/-! ## Runs -/

section

variable {delay : Nat → Nat} {fuel : Nat} {k : KeyboardController} {keys : Keys} {d : Desk}
  {junk : Nat → ByteMem} {dump : List (BitVec 8) → List (BitVec 8)}
  {t : Terminal 24 80 (BitVec 8)}

theorem run_waitForKeyboard (h : k.busy < fuel) :
    (waitForKeyboard fuel).run (KeyboardController.respond delay) k =
      some ((), { k with busy := 0 }) := by
  induction fuel generalizing k with
  | zero => cases h
  | succ fuel ih =>
      have hstatus : (inb (0x64 : BitVec 16)).run (KeyboardController.respond delay) k =
          some ((if 0 < k.busy then 0x02 else 0), { k with busy := k.busy - 1 }) := rfl
      rw [waitForKeyboard, Prog.run_bind_of_eq hstatus]
      by_cases hbusy : 0 < k.busy
      · rw [if_pos hbusy, if_pos (by decide)]
        exact ih (by dsimp only; omega)
      · have hzero : k.busy - 1 = 0 := by omega
        rw [if_neg hbusy, if_neg (by decide), hzero]
        rfl

theorem run_send (v : BitVec 8) :
    (outb (0x60 : BitVec 16) v).run (KeyboardController.respond delay) { k with busy := 0 } =
      some ((), ⟨delay k.taken.length, k.taken ++ [v], k.lost⟩) := rfl

theorem run_updateLedState (hbusy : k.busy < fuel) (hdelay : ∀ n, delay n < fuel) :
    (updateLedState fuel keys).run (KeyboardController.respond delay) k =
      some ((), ⟨delay (k.taken.length + 1), k.taken ++ [0xed, ledState keys], k.lost⟩) := by
  unfold updateLedState
  rw [Prog.run_bind_of_eq (run_waitForKeyboard hbusy), Prog.run_bind_of_eq (run_send 0xed),
    Prog.run_bind_of_eq (run_waitForKeyboard (hdelay _)), run_send]
  simp

/-- Whether the keyboard is told about its lights. -/
theorem run_lockKey (keys : Keys) (toggle : Keys → Keys) (hbusy : k.busy < fuel)
    (hdelay : ∀ n, delay n < fuel) (state : KeyState) :
    ∃ k', (lockKey toggle fuel state keys).run (KeyboardController.respond delay) k =
        some ((if state = .down then toggle keys else keys), k') ∧ k'.busy < fuel ∧
      k'.lost = k.lost ∧
      k'.taken = k.taken ++ if state = .down then [0xed, ledState (toggle keys)] else [] := by
  unfold lockKey
  by_cases h : state = .down
  · simp only [if_pos h]
    refine ⟨⟨delay (k.taken.length + 1), k.taken ++ [0xed, ledState (toggle keys)], k.lost⟩, ?_,
      hdelay _, rfl, rfl⟩
    rw [Prog.run_bind_of_eq (run_updateLedState hbusy hdelay)]
    rfl
  · simp only [if_neg h]
    exact ⟨k, rfl, hbusy, rfl, (List.append_nil _).symm⟩

/-- What `read_key` has done. -/
structure KeyRead (dump : List (BitVec 8) → List (BitVec 8)) (fuel : Nat) (u : BitVec 8) (d : Desk)
    (k : KeyboardController) (t : Terminal 24 80 (BitVec 8)) (d' : Desk)
    (k' : KeyboardController) : Prop where
  keys : d'.keys = nextKeys u d.keys
  codes : d'.codes = d.codes
  shows : Console.Shows d'.console ((typedBy dump d.codes u).foldl
    (fun t ch => t.input blank (Console.key ch)) t)
  busy : k'.busy < fuel
  lost : k'.lost = k.lost
  taken : k'.taken = k.taken ++
    if IsLock u then [0xed, ledState (nextKeys u d.keys)] else []

/-- A release, or a key without a character. -/
theorem typedBy_eq_nil {u : BitVec 8} (hcode : u &&& 0x7f ≠ 0)
    (h : u.msb = true ∨ ¬(0x3b ≤ u ∧ u ≤ 0x44) ∧ scancode.getD u.toNat 0 = 0 ∧
      scancodeCap.getD u.toNat 0 = 0) (codes : List (BitVec 8)) : typedBy dump codes u = [] := by
  unfold typedBy
  rw [if_neg hcode]
  obtain hup | ⟨hfunction, hplain, hcap⟩ := h
  · rw [if_pos hup]
  · have hnone : character codes u = 0 := by
      unfold character
      split <;> assumption
    rw [if_neg hfunction, if_pos hnone, ite_self]

/-- A key that is held down while others are pressed. -/
theorem run_modifier (hbusy : k.busy < fuel) (hshows : Console.Shows d.console t) (u : BitVec 8)
    (hu : u ∈ [0x1d, 0x9d, 0x38, 0xb8, 0x2a, 0xaa, 0x36, 0xb6]) :
    ∃ d' k', (readKey junk dump fuel u d).run (KeyboardController.respond delay) k = some (d', k') ∧
      KeyRead dump fuel u d k t d' k' := by
  have htext : typedBy dump d.codes u = [] :=
    typedBy_eq_nil (by revert u; decide) (by revert u; decide) d.codes
  simp only [List.mem_cons, List.not_mem_nil, or_false] at hu
  obtain rfl | rfl | rfl | rfl | rfl | rfl | rfl | rfl := hu
  all_goals
    refine ⟨_, k, rfl, ?_, rfl, ?_, hbusy, rfl, ?_⟩
    · simp [nextKeys, isOf, shiftKeys, direction]
    · rw [htext]
      exact hshows
    · simp [IsLock]

/-- One of the keys that are locked when they are pressed. -/
theorem run_lock {u : BitVec 8} {toggle : Keys → Keys} {state : KeyState} (hbusy : k.busy < fuel)
    (hdelay : ∀ n, delay n < fuel) (hshows : Console.Shows d.console t)
    (hread : readKey junk dump fuel u d =
      lockKey toggle fuel state d.keys >>= fun keys => pure { d with keys })
    (hkeys : (if state = .down then toggle d.keys else d.keys) = nextKeys u d.keys)
    (hstate : state = .down ↔ IsLock u) (htext : typedBy dump d.codes u = []) :
    ∃ d' k', (readKey junk dump fuel u d).run (KeyboardController.respond delay) k = some (d', k') ∧
      KeyRead dump fuel u d k t d' k' := by
  obtain ⟨k', hrun, hbusy', hlost, htaken⟩ := run_lockKey d.keys toggle hbusy hdelay state
  rw [hread, Prog.run_bind_of_eq hrun]
  refine ⟨_, k', rfl, hkeys, rfl, ?_, hbusy', hlost, ?_⟩
  · rw [htext]
    exact hshows
  · rw [htaken]
    simp only [← hstate]
    split
    · next hdown => rw [← hkeys, if_pos hdown]
    · rfl

/-- Caps lock, num lock or scroll lock. -/
theorem run_locks (hbusy : k.busy < fuel) (hdelay : ∀ n, delay n < fuel)
    (hshows : Console.Shows d.console t) (u : BitVec 8)
    (hu : u ∈ [0x3a, 0xba, 0x45, 0xc5, 0x46, 0xc6]) :
    ∃ d' k', (readKey junk dump fuel u d).run (KeyboardController.respond delay) k = some (d', k') ∧
      KeyRead dump fuel u d k t d' k' := by
  have htext : typedBy dump d.codes u = [] :=
    typedBy_eq_nil (by revert u; decide) (by revert u; decide) d.codes
  simp only [List.mem_cons, List.not_mem_nil, or_false] at hu
  obtain rfl | rfl | rfl | rfl | rfl | rfl := hu
  all_goals
    refine run_lock hbusy hdelay hshows rfl ?_ (by decide) htext
    simp [nextKeys, isOf, shiftKeys]

/-- The handler of a breakpoint prints, and so does `warn`. -/
theorem run_orStuck {action : Except Trap Console} {text : List (BitVec 8)}
    (haction : action.Total fun c' => Console.Shows c' (text.foldl
      (fun t ch => t.input blank (Console.key ch)) t)) (k : KeyboardController) :
    ∃ c', (orStuck action >>= fun console => pure { d with console }).run
        (KeyboardController.respond delay) k = some ({ d with console := c' }, k) ∧
      Console.Shows c' (text.foldl (fun t ch => t.input blank (Console.key ch)) t) := by
  obtain ⟨c', hok, hshows⟩ := haction
  refine ⟨c', ?_, hshows⟩
  rw [hok]
  rfl

theorem isOf_iff {keys : List (BitVec 8)} {u : BitVec 8} :
    isOf keys u = true ↔ u &&& 0x7f ∈ keys := List.contains_iff_mem

theorem nextKeys_eq_self {u : BitVec 8} (hcode : u &&& 0x7f ∉ [0x2a, 0x36, 0x1d, 0x38])
    (hlock : ¬IsLock u) (keys : Keys) : nextKeys u keys = keys := by
  have hnone : ∀ ks ⊆ [0x2a, 0x36, 0x1d, 0x38], ¬isOf ks u = true :=
    fun ks hks h => hcode (hks (isOf_iff.mp h))
  unfold IsLock at hlock
  rw [not_or, not_or] at hlock
  obtain ⟨hcaps, hnum, hscroll⟩ := hlock
  unfold nextKeys
  rw [if_neg (hnone shiftKeys (by decide)), if_neg (hnone [0x1d] (by decide)),
    if_neg (hnone [0x38] (by decide)), decide_eq_false hcaps, decide_eq_false hnum,
    decide_eq_false hscroll, Bool.xor_false, Bool.xor_false, Bool.xor_false]

/-- A key that leaves the variables alone. -/
theorem KeyRead.of_shows {u : BitVec 8} {c' : Console} (hbusy : k.busy < fuel)
    (hcode : u &&& 0x7f ∉ [0x2a, 0x36, 0x1d, 0x38]) (hlock : ¬IsLock u)
    (hshows : Console.Shows c' ((typedBy dump d.codes u).foldl
      (fun t ch => t.input blank (Console.key ch)) t)) :
    KeyRead dump fuel u d k t { d with console := c' } k := by
  refine ⟨(nextKeys_eq_self hcode hlock d.keys).symm, rfl, hshows, hbusy, rfl, ?_⟩
  rw [if_neg hlock, List.append_nil]

theorem warn_spec {c : Console} (h : Console.Shows c t) :
    (warn junk (keyboardError ++ [0]) c).Total fun c' => Console.Shows c' (warning.foldl
      (fun t ch => t.input blank (Console.key ch)) t) := by
  have hcolor : Console.Shows (consoleSetColor 14 0 c) t := ⟨h.displays, h.cursor⟩
  have hprint : (consolePrintString Console.put junk 32
      (asciiBytes ['W', 'A', 'R', 'N', ' ', ':', ' ', '%', 's', '\n'] ++ [0])
      [.string (keyboardError ++ [0])] (consoleSetColor 14 0 c)).Total fun c' =>
        Console.Shows c' (warning.foldl (fun t ch => t.input blank (Console.key ch)) t) ∧ _ :=
    Console.printString_shows hcolor (by decide) (by decide) (by decide) (by decide)
  unfold warn
  refine hprint.bind fun c' ⟨hshows, _⟩ => ?_
  exact .ok ⟨hshows.displays, hshows.cursor⟩

/-- The keys that read nothing but the console. -/
theorem run_print {u : BitVec 8} (action : Except Trap Console) (hbusy : k.busy < fuel)
    (hread : readKey junk dump fuel u d =
      orStuck action >>= fun console => pure { d with console })
    (hcode : u &&& 0x7f ∉ [0x2a, 0x36, 0x1d, 0x38]) (hlock : ¬IsLock u)
    (haction : action.Total fun c' => Console.Shows c' ((typedBy dump d.codes u).foldl
      (fun t ch => t.input blank (Console.key ch)) t)) :
    ∃ d' k', (readKey junk dump fuel u d).run (KeyboardController.respond delay) k = some (d', k') ∧
      KeyRead dump fuel u d k t d' k' := by
  obtain ⟨c', hrun, hshows⟩ := run_orStuck haction k
  exact ⟨_, k, hread ▸ hrun, .of_shows hbusy hcode hlock hshows⟩

/-- A release, or a key without a character. -/
theorem run_nothing {u : BitVec 8} (hbusy : k.busy < fuel) (hshows : Console.Shows d.console t)
    (hread : readKey junk dump fuel u d = pure d)
    (hcode : u &&& 0x7f ∉ [0x2a, 0x36, 0x1d, 0x38]) (hlock : ¬IsLock u)
    (htext : typedBy dump d.codes u = []) :
    ∃ d' k', (readKey junk dump fuel u d).run (KeyboardController.respond delay) k = some (d', k') ∧
      KeyRead dump fuel u d k t d' k' := by
  have htyped : Console.Shows d.console ((typedBy dump d.codes u).foldl
      (fun t ch => t.input blank (Console.key ch)) t) := by
    rw [htext]
    exact hshows
  exact ⟨d, k, hread ▸ rfl, .of_shows hbusy hcode hlock htyped⟩

theorem exec_dump {c : Console} (h : Console.Shows c t) (text : List (BitVec 8)) :
    (putAll Console.put text c).Total fun c' => Console.Shows c' (text.foldl
      (fun t ch => t.input blank (Console.key ch)) t) :=
  (Console.exec_put h text).mono fun _ hc => hc.1

theorem direction_of_msb {u : BitVec 8} (h : u.msb = true) : direction u = .up := by
  revert u
  decide

theorem direction_of_not_msb {u : BitVec 8} (h : ¬u.msb = true) : direction u = .down := by
  revert u
  decide

/-- The keys that stop at a breakpoint. -/
theorem run_function (hbusy : k.busy < fuel) (hshows : Console.Shows d.console t) (u : BitVec 8)
    (hu : 0x3b ≤ u &&& 0x7f ∧ u &&& 0x7f ≤ 0x44) :
    ∃ d' k', (readKey junk dump fuel u d).run (KeyboardController.respond delay) k = some (d', k') ∧
      KeyRead dump fuel u d k t d' k' := by
  have hzero : u &&& 0x7f ≠ 0 := by revert u; decide
  have hcode : u &&& 0x7f ∉ [0x2a, 0x36, 0x1d, 0x38] := by revert u; decide
  have hlock : ¬IsLock u := by revert u; decide
  have hcontrol : u &&& 0x7f ≠ 0x1d := by revert u; decide
  have halt : u &&& 0x7f ≠ 0x38 := by revert u; decide
  have hcaps : u &&& 0x7f ≠ 0x3a := by revert u; decide
  have hrange : ¬u.msb = true → 0x3b ≤ u ∧ u ≤ 0x44 := by revert u; decide
  have hread : readKey junk dump fuel u d = fkey dump (u - 0x3b) (direction u) d := by
    unfold readKey
    dsimp only
    rw [if_neg hcontrol, if_neg halt, if_neg hcaps, if_pos hu]
    rfl
  by_cases hup : u.msb = true
  · refine run_nothing hbusy hshows ?_ hcode hlock (typedBy_eq_nil hzero (.inl hup) d.codes)
    rw [hread, direction_of_msb hup]
    rfl
  · have htext : typedBy dump d.codes u = dump d.codes := by
      unfold typedBy
      rw [if_neg hzero, if_neg hup, if_pos (hrange hup)]
    refine run_print (putAll Console.put (dump d.codes) d.console) hbusy ?_ hcode hlock ?_
    · rw [hread, direction_of_not_msb hup]
      rfl
    · rw [htext]
      exact exec_dump hshows _

theorem run_error (hbusy : k.busy < fuel) (hshows : Console.Shows d.console t) (u : BitVec 8)
    (hu : u ∈ [0x00, 0x80]) :
    ∃ d' k', (readKey junk dump fuel u d).run (KeyboardController.respond delay) k = some (d', k') ∧
      KeyRead dump fuel u d k t d' k' := by
  have hcode : u &&& 0x7f ∉ [0x2a, 0x36, 0x1d, 0x38] := by revert u; decide
  have hlock : ¬IsLock u := by revert u; decide
  have htext : typedBy dump d.codes u = warning := if_pos (by revert u; decide)
  refine run_print (warn junk (keyboardError ++ [0]) d.console) hbusy ?_ hcode hlock ?_
  · rw [List.mem_cons, List.mem_singleton] at hu
    obtain rfl | rfl := hu <;> rfl
  · rw [htext]
    exact warn_spec hshows

theorem lt_sizeof_scancode (u : BitVec 8) :
    u.signExtend 64 < BitVec.ofNat 64 scancode.length ↔ ¬u.msb = true ∧ u.toNat < 91 := by
  have hlength : scancode.length = 91 := by decide
  rw [hlength]
  revert u
  decide

/-- Beyond the tables. -/
theorem getD_scancode {u : BitVec 8} (h : ¬u.toNat < 91) :
    ¬(0x3b ≤ u ∧ u ≤ 0x44) ∧ scancode.getD u.toNat 0 = 0 ∧ scancodeCap.getD u.toNat 0 = 0 := by
  have hlength : scancode.length = 91 ∧ scancodeCap.length = 91 := by decide
  refine ⟨fun ⟨_, hle⟩ => ?_, ?_⟩
  · have hle : u.toNat ≤ 68 := BitVec.le_def.mp hle
    omega
  · rw [List.getD_eq_getElem?_getD, List.getD_eq_getElem?_getD, List.getElem?_eq_none,
      List.getElem?_eq_none]
    · exact ⟨rfl, rfl⟩
    · omega
    · omega

theorem not_error {u : BitVec 8} (h : u &&& 0x7f ≠ 0) :
    ¬(u &&& 0x7f = 0x00 ∨ u &&& 0x7f = 0xfc ∨ u &&& 0x7f = 0xfd ∨ u &&& 0x7f = 0xfe ∨
      u &&& 0x7f = 0xff) := by
  revert u
  decide

theorem Tracks.table {codes : List (BitVec 8)} (h : Tracks keys codes) :
    (keys.capsEnabled ^^ decide (keys.shift = .down)) =
      (toggled 0x3a codes ^^ held shiftKeys codes) := by
  have hshift := h.shift
  rw [h.caps, Bool.eq_iff_iff.mpr (decide_eq_true_iff.trans hshift)]

/-- The keys that the switch does not name. -/
theorem run_default (hbusy : k.busy < fuel) (hshows : Console.Shows d.console t)
    (htracks : Tracks d.keys d.codes) (u : BitVec 8)
    (hu : u &&& 0x7f ∉ [0x00, 0x1d, 0x38, 0x3a, 0x45, 0x46, 0x2a, 0x36] ∧
      ¬(0x3b ≤ u &&& 0x7f ∧ u &&& 0x7f ≤ 0x44)) :
    ∃ d' k', (readKey junk dump fuel u d).run (KeyboardController.respond delay) k = some (d', k') ∧
      KeyRead dump fuel u d k t d' k' := by
  have hzero : u &&& 0x7f ≠ 0 := by revert u; decide
  have hcode : u &&& 0x7f ∉ [0x2a, 0x36, 0x1d, 0x38] := by revert u; decide
  have hlock : ¬IsLock u := by revert u; decide
  have hcontrol : u &&& 0x7f ≠ 0x1d := by revert u; decide
  have halt : u &&& 0x7f ≠ 0x38 := by revert u; decide
  have hcaps : u &&& 0x7f ≠ 0x3a := by revert u; decide
  have hnum : u &&& 0x7f ≠ 0x45 := by revert u; decide
  have hscroll : u &&& 0x7f ≠ 0x46 := by revert u; decide
  have hfunction : ¬(0x3b ≤ u &&& 0x7f ∧ u &&& 0x7f ≤ 0x44) → ¬u.msb = true →
      ¬(0x3b ≤ u ∧ u ≤ 0x44) := by
    clear hu hzero hcode hlock hcontrol halt hcaps hnum hscroll
    revert u
    decide
  have hshift : ¬(u &&& 0x7f = 0x2a ∨ u &&& 0x7f = 0x36) := by
    rintro (h | h)
    · exact hcode (by rw [h]; decide)
    · exact hcode (by rw [h]; decide)
  have hread : readKey junk dump fuel u d = typeKey u d := by
    unfold readKey
    dsimp only
    rw [if_neg hcontrol, if_neg halt, if_neg hcaps, if_neg hu.2, if_neg hnum, if_neg hscroll,
      if_neg hshift, if_neg (not_error hzero)]
  by_cases hsize : u.signExtend 64 < BitVec.ofNat 64 scancode.length
  · have hup : ¬u.msb = true := ((lt_sizeof_scancode u).mp hsize).1
    have htext : typedBy dump d.codes u =
        if character d.codes u = 0 then [] else [character d.codes u] := by
      unfold typedBy
      rw [if_neg hzero, if_neg hup, if_neg (hfunction hu.2 hup)]
    have htype : readKey junk dump fuel u d = if character d.codes u ≠ 0 then
        orStuck (d.console.put (character d.codes u)) >>= fun console => pure { d with console }
      else pure d := by
      rw [hread, typeKey, if_pos hsize, htracks.table]
      rfl
    by_cases hnone : character d.codes u = 0
    · refine run_nothing hbusy hshows ?_ hcode hlock ?_
      · rw [htype, if_neg (not_not.mpr hnone)]
      · rw [htext, if_pos hnone]
    · refine run_print (d.console.put (character d.codes u)) hbusy ?_ hcode hlock ?_
      · rw [htype, if_pos hnone]
      · rw [htext, if_neg hnone]
        exact (Console.put_spec hshows _).mono fun _ hc => hc.1
  · refine run_nothing hbusy hshows ?_ hcode hlock ?_
    · rw [hread, typeKey, if_neg hsize]
    · rw [lt_sizeof_scancode, not_and_or, not_not] at hsize
      exact typedBy_eq_nil hzero (hsize.imp_right getD_scancode) d.codes

theorem run_readKey (hbusy : k.busy < fuel) (hdelay : ∀ n, delay n < fuel)
    (hshows : Console.Shows d.console t) (htracks : Tracks d.keys d.codes) (u : BitVec 8) :
    ∃ d' k', (readKey junk dump fuel u d).run (KeyboardController.respond delay) k = some (d', k') ∧
      KeyRead dump fuel u d k t d' k' := by
  have hcases : u ∈ [0x1d, 0x9d, 0x38, 0xb8, 0x2a, 0xaa, 0x36, 0xb6] ∨
      u ∈ [0x3a, 0xba, 0x45, 0xc5, 0x46, 0xc6] ∨ (0x3b ≤ u &&& 0x7f ∧ u &&& 0x7f ≤ 0x44) ∨
      u ∈ [0x00, 0x80] ∨ u &&& 0x7f ∉ [0x00, 0x1d, 0x38, 0x3a, 0x45, 0x46, 0x2a, 0x36] ∧
        ¬(0x3b ≤ u &&& 0x7f ∧ u &&& 0x7f ≤ 0x44) := by
    revert u
    decide
  obtain h | h | h | h | h := hcases
  · exact run_modifier hbusy hshows u h
  · exact run_locks hbusy hdelay hshows u h
  · exact run_function hbusy hshows u h
  · exact run_error hbusy hshows u h
  · exact run_default hbusy hshows htracks u h

theorem typed_concat (us : List (BitVec 8)) (u : BitVec 8) (codes : List (BitVec 8)) :
    typed dump codes (us ++ [u]) = typed dump codes us ++ typedBy dump (codes ++ us) u := by
  induction us generalizing codes with
  | nil =>
      rw [List.append_nil]
      exact List.append_nil _
  | cons v us ih =>
      show typedBy dump codes v ++ typed dump (codes ++ [v]) (us ++ [u]) = _
      rw [ih, List.append_assoc codes, ← List.append_assoc]
      rfl

theorem told_concat (us : List (BitVec 8)) (u : BitVec 8) (codes : List (BitVec 8)) :
    told codes (us ++ [u]) = told codes us ++
      if IsLock u then [0xed, lights (codes ++ us ++ [u])] else [] := by
  induction us generalizing codes with
  | nil =>
      rw [List.append_nil]
      exact List.append_nil _
  | cons v us ih =>
      have hcodes : codes ++ [v] ++ us = codes ++ v :: us := by
        rw [List.append_assoc, List.singleton_append]
      rw [List.cons_append, told, told, ih, hcodes]
      exact (List.append_assoc _ _ _).symm

end

/-! ## Typing -/

/-- The buffer, what its task has done with the codes, and the keyboard. -/
structure Typing where
  keyboard : Keyboard
  desk : Desk
  controller : KeyboardController

section

variable (junk : Nat → ByteMem) (dump : List (BitVec 8) → List (BitVec 8)) (fuel : Nat)
  (delay : Nat → Nat)

/-- A byte that is taken out is handled before the next one is. An interrupt in the middle changes
nothing that `read_key` reads. -/
def Typing.step (s : Typing) (a : KeyboardStep) : Except Trap Typing := do
  let keyboard ← s.keyboard.step a
  let codes := keyboard.popped.drop s.keyboard.popped.length
  match (readKeys junk dump fuel codes s.desk).run (KeyboardController.respond delay)
      s.controller with
  | some (desk, controller) => return ⟨keyboard, desk, controller⟩
  | none => .error .diverged

/-- After `init_keyboard`. -/
def Typing.start (b : KeyboardBuffer) (c : Console) : Typing :=
  ⟨.start b, ⟨.start, c, []⟩, ⟨0, [], 0⟩⟩

end

section

variable {delay : Nat → Nat} {fuel : Nat} {junk : Nat → ByteMem}
  {dump : List (BitVec 8) → List (BitVec 8)} {t : Terminal 24 80 (BitVec 8)} {s : Typing}

/-- All that goes with the codes that were taken out. -/
structure Typed (dump : List (BitVec 8) → List (BitVec 8)) (fuel : Nat)
    (t : Terminal 24 80 (BitVec 8)) (codes : List (BitVec 8)) (d : Desk)
    (k : KeyboardController) : Prop where
  record : d.codes = codes
  tracks : Tracks d.keys codes
  shows : Console.Shows d.console ((typed dump [] codes).foldl
    (fun t ch => t.input blank (Console.key ch)) t)
  taken : k.taken = told [] codes
  lost : k.lost = 0
  busy : k.busy < fuel

theorem Typed.readKey {codes : List (BitVec 8)} {d : Desk} {k : KeyboardController}
    (h : Typed dump fuel t codes d k) (hdelay : ∀ n, delay n < fuel) (u : BitVec 8) :
    ∃ d' k', (readKeys junk dump fuel [u] d).run (KeyboardController.respond delay) k =
        some (d', k') ∧ Typed dump fuel t (codes ++ [u]) d' k' := by
  obtain ⟨rfl, htracks, hshows, htaken, hlost, hbusy⟩ := h
  obtain ⟨d', k', hrun, hread⟩ :=
    run_readKey hbusy hdelay hshows htracks u
  refine ⟨{ d' with codes := d'.codes ++ [u] }, k', ?_, ?_⟩
  · rw [readKeys, Prog.run_bind_of_eq hrun]
    rfl
  · have hnext : Tracks (nextKeys u d.keys) (d.codes ++ [u]) := htracks.next u
    constructor
    · rw [hread.codes]
    · rw [hread.keys]
      exact hnext
    · rw [typed_concat, List.foldl_append]
      exact hread.shows
    · rw [hread.taken, htaken, told_concat, hnext.ledState]
      rfl
    · rw [hread.lost, hlost]
    · exact hread.busy

theorem Keyboard.step_popped {s s' : Keyboard} {a : KeyboardStep} (h : s.step a = .ok s') :
    s'.popped = s.popped ∨ ∃ u, s'.popped = s.popped ++ [u] := by
  cases a with
  | irq u =>
      obtain ⟨buffer, _, hs'⟩ := Except.bind_eq_ok.mp h
      cases hs'
      exact .inl rfl
  | task =>
      rw [step] at h
      cases hreader : s.reader with
      | test =>
          simp only [hreader] at h
          cases h
          exact .inl rfl
      | pop =>
          simp only [hreader] at h
          cases h
          exact .inl rfl
      | fetch =>
          simp only [hreader] at h
          obtain ⟨u, _, hs'⟩ := Except.bind_eq_ok.mp h
          cases hs'
          exact .inr ⟨u, rfl⟩

theorem typing_step {a : KeyboardStep} {keyboard : Keyboard} (hdelay : ∀ n, delay n < fuel)
    (h : Typed dump fuel t s.keyboard.popped s.desk s.controller)
    (hstep : s.keyboard.step a = .ok keyboard) :
    (s.step junk dump fuel delay a).Total fun s' => s'.keyboard = keyboard ∧
      Typed dump fuel t s'.keyboard.popped s'.desk s'.controller := by
  obtain hsame | ⟨u, hone⟩ := Keyboard.step_popped hstep
  · refine ⟨⟨keyboard, s.desk, s.controller⟩, ?_, rfl, hsame ▸ h⟩
    unfold Typing.step
    rw [hstep, Except.ok_bind]
    dsimp only
    rw [hsame, List.drop_length]
    rfl
  · obtain ⟨d', k', hrun, htyped⟩ := h.readKey hdelay u
    refine ⟨⟨keyboard, d', k'⟩, ?_, rfl, hone ▸ htyped⟩
    unfold Typing.step
    rw [hstep, Except.ok_bind]
    dsimp only
    rw [hone, List.drop_left, hrun]
    rfl

theorem Typed.start {c : Console} (hshows : Console.Shows c t) (hfuel : 0 < fuel) :
    Typed dump fuel t [] ⟨.start, c, []⟩ ⟨0, [], 0⟩ :=
  ⟨rfl, .start, hshows, rfl, rfl, hfuel⟩

theorem exec_typing {b : KeyboardBuffer} {c : Console} (hshows : Console.Shows c t)
    (hdelay : ∀ n, delay n < fuel) (steps : List KeyboardStep) :
    (Transition.exec (Typing.step junk dump fuel delay) (.start b c) steps).Total fun s =>
      Keyboard.run b steps = .ok s.keyboard ∧
        Typed dump fuel t s.keyboard.popped s.desk s.controller := by
  induction steps using List.reverseRecOn with
  | nil => exact .ok ⟨rfl, .start hshows (Nat.zero_lt_of_lt (hdelay 0))⟩
  | append_singleton steps a ih =>
      obtain ⟨s, hexec, hrun, htyped⟩ := ih
      obtain ⟨keyboard, last, hrun', -, -⟩ := Keyboard.run_wf b (steps ++ [a])
      obtain ⟨s₀, hrun₀, hstep⟩ := Transition.exec_concat_eq_ok.mp hrun'
      cases hrun₀.symm.trans hrun
      obtain ⟨s', hstep', hkeyboard, htyped'⟩ :=
        typing_step hdelay htyped hstep
      refine ⟨s', Transition.exec_concat_eq_ok.mpr ⟨s, hexec, hstep'⟩, ?_, htyped'⟩
      rw [hkeyboard]
      exact hrun'

/-- The task stops where the indices are equal. -/
theorem Keyboard.Wf.finished {s : Keyboard} {last : Nat} (h : s.Wf last)
    (hlossless : s.Lossless last) (hpending : s.pending ≤ 31) (hreader : s.reader = .test)
    (hdata : ¬s.buffer.HasData) :
    s.popped = s.pushed := by
  have hadvanced : s.advanced = s.popped.length := by
    rw [advanced, hreader]
    rfl
  have hequal : s.buffer.r = s.buffer.w := not_not.mp hdata
  rw [h.r_eq, h.w_eq, hadvanced] at hequal
  have hle := h.last_le
  obtain ⟨hlength, htake⟩ := hlossless
  have hall : last = s.pushed.length := by
    unfold pending at hpending
    omega
  rw [htake, hall, List.take_length]

/-- What is on the screen is what the codes mean, wherever the interrupts come. The lights are
told of every change, and no byte for the keyboard is lost. When there was always room in the
buffer, the codes are those that were received, and all of them when the task is done. -/
theorem typing (b : KeyboardBuffer) (c : Console) (hshows : Console.Shows c t)
    (hdelay : ∀ n, delay n < fuel) (steps : List KeyboardStep) :
    (Transition.exec (Typing.step junk dump fuel delay) (.start b c) steps).Total fun s =>
      Typed dump fuel t s.keyboard.popped s.desk s.controller ∧
      s.keyboard.popped.Sublist s.keyboard.pushed ∧
      ((∀ steps₁ s₁, steps₁ <+: steps → Keyboard.run b steps₁ = .ok s₁ → s₁.pending ≤ 31) →
        s.keyboard.popped <+: s.keyboard.pushed ∧
        (s.keyboard.reader = .test → ¬s.keyboard.buffer.HasData →
          s.keyboard.popped = s.keyboard.pushed)) := by
  refine (exec_typing (b := b) hshows hdelay steps).mono fun s ⟨hrun, htyped⟩ => ?_
  obtain ⟨keyboard, last, hrun', hwf, hlossless⟩ := Keyboard.run_wf b steps
  cases hrun'.symm.trans hrun
  refine ⟨htyped, hwf.order.trans (List.take_sublist _ _), fun hpending => ?_⟩
  have hkept := hlossless hpending
  have hlast := hpending steps _ List.prefix_rfl hrun
  refine ⟨?_, fun hreader hdata => hwf.finished hkept hlast hreader hdata⟩
  rw [hkept.2]
  exact List.take_prefix _ _

end

def emptyConsole : Console := ⟨fun _ => blank, videoStart, 7, [], []⟩

/-- Shift and then a key. -/
theorem typing_run : (Transition.exec (Typing.step (fun _ _ => 0) (fun _ => []) 1 fun _ => 0)
    (.start ⟨fun _ => 0, 0, 0⟩ emptyConsole)
    ([.irq 0x2a, .irq 0x1e] ++ List.replicate 6 .task)).Total fun s =>
      Typed (fun _ => []) 1 (Terminal.clear blank (by decide) (by decide)) s.keyboard.popped s.desk
        s.controller ∧ s.keyboard.popped.Sublist s.keyboard.pushed :=
  (typing ⟨fun _ => 0, 0, 0⟩ emptyConsole ⟨⟨fun _ _ => rfl, fun _ _ => rfl⟩, rfl⟩
    (fun _ => by decide) ([.irq 0x2a, .irq 0x1e] ++ List.replicate 6 .task)).mono
      fun _ h => ⟨h.1, h.2.1⟩

end BadOs
