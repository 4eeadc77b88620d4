import BadOs.Console
import BadOs.Numerals

/-!
# Formatted printing

`console_print_string` writes characters with `console_put`, which is a parameter here. A format
that ends in the middle of a directive is read on behind its terminating zero.
-/

namespace BadOs

open Decimal

/-! ## `console.c` -/

/-- What `va_arg` gives. A pointer is given by the bytes that are left of its object. -/
inductive PrintArg where
  | string (object : List (BitVec 8))
  | word (v : BitVec 32)
  | quad (v : BitVec 64)
  deriving DecidableEq

abbrev percent : BitVec 8 := BitVec.ofNat 8 '%'.toNat

def hex (i : Nat) : BitVec 8 :=
  if 16 < i then BitVec.ofNat 8 '?'.toNat
  else if 9 < i then BitVec.ofNat 8 ('A'.toNat + (i - 10))
  else BitVec.ofNat 8 ('0'.toNat + i)

/-- `va_arg` of a type that is not that of the argument is undefined. -/
def vaString : List PrintArg → Except Trap (List (BitVec 8) × List PrintArg)
  | .string object :: args => .ok (object, args)
  | _ => .error .outOfBounds

def vaWord : List PrintArg → Except Trap (BitVec 32 × List PrintArg)
  | .word v :: args => .ok (v, args)
  | _ => .error .outOfBounds

def vaQuad : List PrintArg → Except Trap (BitVec 64 × List PrintArg)
  | .quad v :: args => .ok (v, args)
  | _ => .error .outOfBounds

section

variable {S : Type} (put : BitVec 8 → S → Except Trap S)

def consolePutStringRaw : (str : List (BitVec 8)) → S → Except Trap S
  | [], _ => .error .outOfBounds
  | c :: str, s =>
      if c ≠ 0 then do
        let s ← put c s
        consolePutStringRaw str s
      else .ok s

/-- The loop of the hexadecimal printers, with so many digits left. -/
def putNibbles {w : Nat} (v : BitVec w) : (left : Nat) → S → Except Trap S
  | 0, s => .ok s
  | left + 1, s => do
      let s ← put (hex (v >>> (4 * left) &&& 0xf).toNat) s
      putNibbles v left s

def consolePutHex (v : BitVec 32) (s : S) : Except Trap S := putNibbles put v 8 s

def consolePutHex64 (v : BitVec 64) (s : S) : Except Trap S := putNibbles put v 16 s

/-- A store to `str[p]`. -/
def storeChar (str : List (BitVec 8)) (p : Int) (c : BitVec 8) : Except Trap (List (BitVec 8)) :=
  if 0 ≤ p ∧ p < str.length then .ok (str.set p.toNat c) else .error .outOfBounds

/-- The loop of `console_put_dec`. -/
def putDecLoop : (fuel : Nat) → (v : BitVec 32) → (str : List (BitVec 8)) → (p : Int) →
    Except Trap (List (BitVec 8) × Int)
  | 0, _, _, _ => .error .diverged
  | fuel + 1, v, str, p =>
      if v ≠ 0 then do
        let str ← storeChar str p ((v % 10).setWidth 8 + 48)
        putDecLoop fuel (v / 10) str (p - 1)
      else .ok (str, p)

/-- `console_put_dec`, when the stack holds `junk` before, and with the printer that it calls. -/
def consolePutDec (print : List (BitVec 8) → S → Except Trap S) (junk : ByteMem) (v : BitVec 32)
    (s : S) : Except Trap S := do
  let str ← storeChar (junk.slice 0 11) 10 0
  if v = 0 then put 48 s
  else
    let (str, p) ← putDecLoop 11 v str 9
    print (str.drop (p + 1).toNat) s

/-- The `switch` of `console_print_string`: the character is the one behind the `%`. -/
def printDirective (print : List (BitVec 8) → S → Except Trap S) (junk : ByteMem) (c : BitVec 8)
    (args : List PrintArg) (s : S) : Except Trap (List PrintArg × S) :=
  if c = BitVec.ofNat 8 's'.toNat then do
    let (str, args) ← vaString args
    let s ← consolePutStringRaw put str s
    return (args, s)
  else if c = BitVec.ofNat 8 'd'.toNat then do
    let (v, args) ← vaWord args
    let s ← consolePutDec put print junk v s
    return (args, s)
  else if c = BitVec.ofNat 8 'x'.toNat then do
    let (v, args) ← vaWord args
    let s ← consolePutHex put v s
    return (args, s)
  else if c = BitVec.ofNat 8 'p'.toNat then do
    let (v, args) ← vaQuad args
    let s ← consolePutHex64 put v s
    return (args, s)
  else do
    let s ← put c s
    return (args, s)

/-- `console_print_string`: the loop gives up after `fuel` rounds. What is on the stack may be
different in every round. -/
def consolePrintString (junk : Nat → ByteMem) : (fuel : Nat) → (str : List (BitVec 8)) →
    (args : List PrintArg) → S → Except Trap S
  | 0, _, _, _ => .error .diverged
  | fuel + 1, str, args, s => do
      let c ← charAt str
      if c = 0 then return s
      else if c = percent then
        let c ← charAt str.tail
        let print := fun str s => consolePrintString junk fuel str [] s
        let (args, s) ← printDirective put print (junk fuel) c args s
        consolePrintString junk fuel str.tail.tail args s
      else
        let s ← put c s
        consolePrintString junk fuel str.tail args s

end

/-! ## What is to be printed -/

/-- A part of a format. -/
inductive Directive where
  | literal (c : BitVec 8)
  | string
  | decimal
  | hex
  | pointer
  deriving DecidableEq

/-- What a character means behind a `%`. -/
def Directive.ofChar (c : BitVec 8) : Directive :=
  if c = BitVec.ofNat 8 's'.toNat then .string
  else if c = BitVec.ofNat 8 'd'.toNat then .decimal
  else if c = BitVec.ofNat 8 'x'.toNat then .hex
  else if c = BitVec.ofNat 8 'p'.toNat then .pointer
  else .literal c

/-- The parts of a format. There is none for a `%` at the end. -/
def directives : (fmt : List (BitVec 8)) → List Directive
  | [] => []
  | [c] => if c = percent then [] else [.literal c]
  | c :: c' :: fmt =>
      if c = percent then .ofChar c' :: directives fmt else .literal c :: directives (c' :: fmt)

/-- The format ends behind a `%` that starts a directive. -/
def endsInDirective : (fmt : List (BitVec 8)) → Bool
  | [] => false
  | [c] => decide (c = percent)
  | c :: c' :: fmt => if c = percent then endsInDirective fmt else endsInDirective (c' :: fmt)

/-- `0` to `9` and `A` to `F`. -/
def upperHex (k : Nat) : BitVec 8 := BitVec.ofNat 8 (if k < 10 then 48 + k else 55 + k)

/-- The last digits of a number, the highest one first. -/
def hexDigits : (count : Nat) → (n : Nat) → List (BitVec 8)
  | 0, _ => []
  | count + 1, n => upperHex (n / 16 ^ count % 16) :: hexDigits count n

/-- What one part of a format becomes, and the arguments that are left. The argument has to be of
the right type, and a string has to end. -/
def Directive.expand : Directive → List PrintArg → Option (List (BitVec 8) × List PrintArg)
  | .literal c, args => some ([c], args)
  | .string, .string object :: args =>
      if 0 ∈ object then some (object.takeWhile (· ≠ 0), args) else none
  | .decimal, .word v :: args => some (numeral v.toNat, args)
  | .hex, .word v :: args => some (hexDigits 8 v.toNat, args)
  | .pointer, .quad v :: args => some (hexDigits 16 v.toNat, args)
  | _, _ => none

/-- What a format becomes, if the arguments go with it. -/
def expand : List Directive → List PrintArg → Option (List (BitVec 8))
  | [], [] => some []
  | [], _ :: _ => none
  | d :: ds, args => do
      let (text, args) ← d.expand args
      let rest ← expand ds args
      return text ++ rest

/-! ## What is printed -/

section

variable {S : Type} (put : BitVec 8 → S → Except Trap S)

/-- The characters go to `console_put` one after the other. -/
def putAll (chars : List (BitVec 8)) (s : S) : Except Trap S :=
  Transition.exec (fun s c => put c s) s chars

@[simp] theorem putAll_nil (s : S) : putAll put [] s = .ok s := rfl

theorem putAll_cons (c : BitVec 8) (l : List (BitVec 8)) (s : S) :
    putAll put (c :: l) s = put c s >>= putAll put l := rfl

theorem putAll_singleton (c : BitVec 8) (s : S) : putAll put [c] s = put c s := by
  rw [putAll_cons]
  exact bind_pure (put c s)

theorem putAll_append (l l' : List (BitVec 8)) (s : S) :
    putAll put (l ++ l') s = putAll put l s >>= putAll put l' := by
  induction l generalizing s with
  | nil => rfl
  | cons c l ih =>
      rw [List.cons_append, putAll_cons, putAll_cons, bind_assoc]
      exact congrArg (put c s >>= ·) (funext ih)

variable {put} {print : List (BitVec 8) → S → Except Trap S} {junk : Nat → ByteMem}
  {fuel : Nat} {fmt object l : List (BitVec 8)} {args args' : List PrintArg} {v : BitVec 32}

theorem consolePutStringRaw_eq (h : 0 ∈ object) (s : S) :
    consolePutStringRaw put object s = putAll put (object.takeWhile (· ≠ 0)) s := by
  induction object generalizing s with
  | nil => cases h
  | cons c object ih =>
      rw [consolePutStringRaw]
      by_cases hc : c = 0
      · rw [if_neg (not_not.mpr hc), List.takeWhile_cons_of_neg (by simpa using hc)]
        rfl
      · have hmem : 0 ∈ object := (List.mem_cons.mp h).resolve_left fun heq => hc heq.symm
        rw [if_pos hc, List.takeWhile_cons_of_pos (by simpa using hc), putAll_cons]
        exact congrArg (put c s >>= ·) (funext fun s => ih hmem s)

theorem hex_eq {k : Nat} (h : k < 16) : hex k = upperHex k := by
  revert k
  decide

theorem nibble_toNat {w : Nat} (hw : 4 ≤ w) (v : BitVec w) (k : Nat) :
    (v >>> (4 * k) &&& 0xf).toNat = v.toNat / 16 ^ k % 16 := by
  have hmask : (0xf : BitVec w).toNat = 2 ^ 4 - 1 :=
    Nat.mod_eq_of_lt (Nat.lt_of_lt_of_le (by decide : 15 < 2 ^ 4)
      (Nat.pow_le_pow_right (by decide) hw))
  rw [BitVec.toNat_and, hmask, Nat.and_two_pow_sub_one_eq_mod, BitVec.toNat_ushiftRight,
    Nat.shiftRight_eq_div_pow, Nat.pow_mul]

theorem putNibbles_eq {w : Nat} (hw : 4 ≤ w) (v : BitVec w) (left : Nat) (s : S) :
    putNibbles put v left s = putAll put (hexDigits left v.toNat) s := by
  induction left generalizing s with
  | zero => rfl
  | succ left ih =>
      rw [putNibbles, nibble_toNat hw, hex_eq (Nat.mod_lt _ (by decide)), hexDigits, putAll_cons]
      exact congrArg (put _ s >>= ·) (funext ih)

/-! ### Decimal numbers -/

theorem storeChar_eq {str : List (BitVec 8)} {p : Nat} (h : p < str.length) (c : BitVec 8) :
    storeChar str p c = .ok (str.set p c) := if_pos ⟨Int.natCast_nonneg p, Int.ofNat_lt.mpr h⟩

/-- The digits are stored in front of what is there, and the pointer stops in front of them. -/
theorem putDecLoop_spec (str : List (BitVec 8)) {k : Nat} (hv : v.toNat < 10 ^ fuel)
    (hk : (digits v.toNat).length ≤ k) (hlt : k ≤ str.length) :
    ∃ str' : List (BitVec 8), putDecLoop (fuel + 1) v str ((k : Int) - 1) =
        .ok (str', ((k - (digits v.toNat).length : Nat) : Int) - 1) ∧
      str'.drop (k - (digits v.toNat).length) = digits v.toNat ++ str.drop k := by
  induction fuel generalizing v str k with
  | zero =>
      obtain rfl : v = 0 := BitVec.eq_of_toNat_eq (Nat.lt_one_iff.mp hv)
      exact ⟨str, rfl, rfl⟩
  | succ fuel ih =>
      rw [putDecLoop]
      by_cases hzero : v = 0
      · subst hzero
        exact ⟨str, rfl, rfl⟩
      · have hne : v.toNat ≠ 0 := fun h => hzero (BitVec.eq_of_toNat_eq h)
        have hdiv : (v / 10).toNat = v.toNat / 10 := BitVec.toNat_udiv
        rw [digits_eq hne, List.length_append, List.length_singleton] at hk ⊢
        obtain ⟨k, rfl⟩ := Nat.exists_eq_add_one_of_ne_zero (Nat.ne_zero_of_lt hk)
        have hcast : ((k + 1 : Nat) : Int) - 1 = (k : Int) := by omega
        have hset : storeChar str k (digit (v.toNat % 10)) =
            .ok (str.set k (digit (v.toNat % 10))) := storeChar_eq hlt _
        obtain ⟨str', hrun, hdrop⟩ := ih (v := v / 10) (k := k)
          (str.set k (digit (v.toNat % 10))) (by omega) (by rw [hdiv]; omega)
          (by rw [List.length_set]; omega)
        rw [hdiv] at hrun hdrop
        rw [if_pos hzero, hcast, toStr_digit, hset, Except.ok_bind, Nat.add_sub_add_right]
        refine ⟨str', hrun, hdrop.trans ?_⟩
        rw [List.drop_eq_getElem_cons (by rwa [List.length_set]), List.getElem_set_self,
          List.drop_set_of_lt (Nat.lt_succ_self k), List.append_assoc, List.singleton_append]

/-- What the printer makes of a numeral. -/
def PrintsPlain (put : BitVec 8 → S → Except Trap S)
    (print : List (BitVec 8) → S → Except Trap S) : Prop :=
  ∀ l : List (BitVec 8), (∀ c ∈ l, c ≠ 0 ∧ c ≠ percent) → l.length ≤ 10 →
    ∀ s, print (l ++ [0]) s = putAll put l s

theorem consolePutDec_eq (hprint : PrintsPlain put print) (junk : ByteMem) (v : BitVec 32)
    (s : S) : consolePutDec put print junk v s = putAll put (numeral v.toNat) s := by
  have hlength : ((junk.slice 0 11).set 10 0).length = 11 := by
    rw [List.length_set, ByteMem.length_slice]
  have hstore : storeChar (junk.slice 0 11) 10 0 = .ok ((junk.slice 0 11).set 10 0) :=
    storeChar_eq (p := 10) (by rw [ByteMem.length_slice]; decide) 0
  have hend : ((junk.slice 0 11).set 10 0).drop 10 = [0] := by
    rw [List.drop_eq_getElem_cons (by rw [hlength]; decide), List.getElem_set_self,
      List.drop_eq_nil_of_le (by rw [hlength])]
  rw [consolePutDec, hstore, Except.ok_bind]
  by_cases hzero : v = 0
  · subst hzero
    rw [if_pos rfl]
    exact (putAll_singleton put 48 s).symm
  · have hne : v.toNat ≠ 0 := fun h => hzero (BitVec.eq_of_toNat_eq h)
    have hlt : v.toNat < 10 ^ 10 := v.isLt.trans (by decide)
    have hdigits := length_digits_le hlt
    obtain ⟨str, hloop, hdrop⟩ := putDecLoop_spec ((junk.slice 0 11).set 10 0) hlt hdigits
      (by rw [hlength]; decide)
    have hloop' : putDecLoop 11 v ((junk.slice 0 11).set 10 0) 9 = .ok (str, _) := hloop
    rw [hend, digits_of_ne_zero hne] at hdrop
    rw [digits_of_ne_zero hne] at hdigits
    rw [if_neg hzero, hloop', Except.ok_bind]
    dsimp only
    rw [Int.sub_add_cancel, Int.toNat_natCast, digits_of_ne_zero hne, hdrop]
    refine hprint _ (fun c hc => ⟨ne_zero_of_mem_numeral hc, ?_⟩) hdigits s
    rintro rfl
    exact absurd (mem_numeral hc).1 (by decide)

/-! ### Formats -/

theorem consolePrintString_literal {c : BitVec 8} (hc : c ≠ 0) (hpercent : c ≠ percent)
    (l : List (BitVec 8)) (args : List PrintArg) (s : S) :
    consolePrintString put junk (fuel + 1) (c :: l) args s =
      put c s >>= consolePrintString put junk fuel l args := by
  rw [consolePrintString, charAt, Except.ok_bind, if_neg hc, if_neg hpercent]
  rfl

theorem consolePrintString_directive (c : BitVec 8) (l : List (BitVec 8)) (args : List PrintArg)
    (s : S) :
    consolePrintString put junk (fuel + 1) (percent :: c :: l) args s =
      printDirective put (fun str s => consolePrintString put junk fuel str [] s) (junk fuel) c
        args s >>= fun r => consolePrintString put junk fuel l r.1 r.2 := rfl

/-- Without directives the characters are printed as they are. -/
theorem consolePrintString_plain (h : ∀ c ∈ l, c ≠ 0 ∧ c ≠ percent) (hfuel : l.length < fuel)
    (s : S) : consolePrintString put junk fuel (l ++ [0]) [] s = putAll put l s := by
  induction l generalizing fuel s with
  | nil =>
      obtain ⟨fuel, rfl⟩ := Nat.exists_eq_add_one_of_ne_zero (Nat.ne_zero_of_lt hfuel)
      rfl
  | cons c l ih =>
      obtain ⟨fuel, rfl⟩ := Nat.exists_eq_add_one_of_ne_zero (Nat.ne_zero_of_lt hfuel)
      obtain ⟨⟨hc, hpercent⟩, hl⟩ := List.forall_mem_cons.mp h
      rw [List.cons_append, consolePrintString_literal hc hpercent, putAll_cons]
      exact congrArg (put c s >>= ·) (funext fun s => ih hl (Nat.lt_of_succ_lt_succ hfuel) s)

theorem printsPlain (hfuel : 10 < fuel) :
    PrintsPlain put fun str s => consolePrintString put junk fuel str [] s :=
  fun _ hl hlength s => consolePrintString_plain hl (hlength.trans_lt hfuel) s

theorem expand_string {text : List (BitVec 8)}
    (h : Directive.string.expand args = some (text, args')) :
    ∃ object, args = .string object :: args' ∧ 0 ∈ object ∧ object.takeWhile (· ≠ 0) = text := by
  cases args with
  | nil => cases h
  | cons a args =>
      cases a with
      | string object =>
          rw [Directive.expand, Option.ite_none_right_eq_some] at h
          obtain ⟨hmem, h⟩ := h
          cases h
          exact ⟨object, rfl, hmem, rfl⟩
      | word v => cases h
      | quad v => cases h

theorem expand_word {d : Directive} {text : List (BitVec 8)} (hd : d = .decimal ∨ d = .hex)
    (h : d.expand args = some (text, args')) :
    ∃ v, args = .word v :: args' ∧
      (if d = .decimal then numeral v.toNat else hexDigits 8 v.toNat) = text := by
  cases args with
  | nil => obtain rfl | rfl := hd <;> cases h
  | cons a args =>
      cases a with
      | string object => obtain rfl | rfl := hd <;> cases h
      | word v => obtain rfl | rfl := hd <;> cases h <;> exact ⟨v, rfl, rfl⟩
      | quad v => obtain rfl | rfl := hd <;> cases h

theorem expand_pointer {text : List (BitVec 8)}
    (h : Directive.pointer.expand args = some (text, args')) :
    ∃ v, args = .quad v :: args' ∧ hexDigits 16 v.toNat = text := by
  cases args with
  | nil => cases h
  | cons a args =>
      cases a with
      | string object => cases h
      | word v => cases h
      | quad v =>
          cases h
          exact ⟨v, rfl, rfl⟩

theorem printDirective_eq {c : BitVec 8} {text : List (BitVec 8)} (hprint : PrintsPlain put print)
    (h : (Directive.ofChar c).expand args = some (text, args')) (m : ByteMem) (s : S) :
    printDirective put print m c args s = putAll put text s >>= fun s => .ok (args', s) := by
  unfold Directive.ofChar at h
  unfold printDirective
  split
  · next hc =>
    rw [if_pos hc] at h
    obtain ⟨object, rfl, hmem, rfl⟩ := expand_string h
    rw [← consolePutStringRaw_eq hmem]
    rfl
  next hc =>
  rw [if_neg hc] at h
  split
  · next hc =>
    rw [if_pos hc] at h
    obtain ⟨v, rfl, rfl⟩ := expand_word (.inl rfl) h
    rw [if_pos rfl, ← consolePutDec_eq hprint m]
    rfl
  next hc =>
  rw [if_neg hc] at h
  split
  · next hc =>
    rw [if_pos hc] at h
    obtain ⟨v, rfl, rfl⟩ := expand_word (.inr rfl) h
    rw [if_neg (by decide), ← putNibbles_eq (by decide)]
    rfl
  next hc =>
  rw [if_neg hc] at h
  split
  · next hc =>
    rw [if_pos hc] at h
    obtain ⟨v, rfl, rfl⟩ := expand_pointer h
    rw [← putNibbles_eq (by decide)]
    rfl
  · next hc =>
    rw [if_neg hc] at h
    cases h
    rw [putAll_singleton]
    rfl

theorem expand_cons {d : Directive} {ds : List Directive} {out : List (BitVec 8)}
    (h : expand (d :: ds) args = some out) :
    ∃ text args' rest, d.expand args = some (text, args') ∧ expand ds args' = some rest ∧
      text ++ rest = out := by
  obtain ⟨⟨text, args'⟩, hd, h⟩ := Option.bind_eq_some_iff.mp h
  obtain ⟨rest, hds, h⟩ := Option.bind_eq_some_iff.mp h
  exact ⟨text, args', rest, hd, hds, Option.some.inj h⟩

theorem expand_nil {out : List (BitVec 8)} (h : expand [] args = some out) :
    args = [] ∧ out = [] := by
  cases args with
  | nil => exact ⟨rfl, (Option.some.inj h).symm⟩
  | cons a args => cases h

/-- The whole format is printed. One that ends in a directive is read on behind its end, after
the terminating zero has been printed. -/
theorem consolePrintString_eq {out : List (BitVec 8)} (hfmt : ∀ c ∈ fmt, c ≠ 0)
    (hexpand : expand (directives fmt) args = some out) (hfuel : fmt.length + 12 ≤ fuel) (s : S) :
    consolePrintString put junk fuel (fmt ++ [0]) args s = putAll put out s >>= fun s =>
      if endsInDirective fmt then put 0 s >>= fun _ => .error .outOfBounds else .ok s := by
  induction fmt using directives.induct generalizing args out fuel s with
  | case1 =>
      obtain ⟨rfl, rfl⟩ := expand_nil hexpand
      obtain ⟨fuel, rfl⟩ := Nat.exists_eq_add_of_le' hfuel
      rfl
  | case2 =>
      obtain ⟨rfl, rfl⟩ := expand_nil hexpand
      obtain ⟨fuel, rfl⟩ := Nat.exists_eq_add_of_le' hfuel
      show consolePrintString put junk (fuel + 12 + 1) (percent :: 0 :: []) [] s = _
      have htext : (Directive.ofChar 0).expand [] = some ([0], []) := rfl
      rw [consolePrintString_directive, printDirective_eq (printsPlain (by omega)) htext,
        putAll_singleton, bind_assoc]
      rfl
  | case3 c hc =>
      rw [directives, if_neg hc] at hexpand
      obtain ⟨text, args', rest, htext, hrest, rfl⟩ := expand_cons hexpand
      cases htext
      obtain ⟨rfl, rfl⟩ := expand_nil hrest
      obtain ⟨fuel, rfl⟩ := Nat.exists_eq_add_of_le' hfuel
      have hcomplete : endsInDirective [c] = false := decide_eq_false hc
      show consolePrintString put junk (fuel + 12 + 1) (c :: [0]) [] s = _
      rw [consolePrintString_literal (hfmt c List.mem_cons_self) hc, List.append_nil,
        putAll_singleton, hcomplete]
      rfl
  | case4 c' fmt ih =>
      rw [directives, if_pos rfl] at hexpand
      obtain ⟨text, args', rest, htext, hrest, rfl⟩ := expand_cons hexpand
      obtain ⟨fuel, rfl⟩ := Nat.exists_eq_add_one_of_ne_zero (show fuel ≠ 0 by omega)
      rw [List.length_cons, List.length_cons] at hfuel
      have hfmt' : ∀ c ∈ fmt, c ≠ 0 := fun c hc =>
        hfmt c (List.mem_cons_of_mem _ (List.mem_cons_of_mem _ hc))
      rw [List.cons_append, List.cons_append, consolePrintString_directive,
        printDirective_eq (printsPlain (by omega)) htext, bind_assoc, putAll_append, bind_assoc,
        endsInDirective, if_pos rfl]
      refine congrArg (putAll put text s >>= ·) (funext fun s => ?_)
      exact ih hfmt' hrest (by omega) s
  | case5 c c' fmt hc ih =>
      rw [directives, if_neg hc] at hexpand
      obtain ⟨text, args', rest, htext, hrest, rfl⟩ := expand_cons hexpand
      cases htext
      obtain ⟨fuel, rfl⟩ := Nat.exists_eq_add_one_of_ne_zero (show fuel ≠ 0 by omega)
      rw [List.length_cons] at hfuel
      have hfmt' : ∀ d ∈ c' :: fmt, d ≠ 0 := fun d hd => hfmt d (List.mem_cons_of_mem _ hd)
      rw [List.cons_append, consolePrintString_literal (hfmt c List.mem_cons_self) hc,
        List.singleton_append, putAll_cons, bind_assoc, endsInDirective, if_neg hc]
      refine congrArg (put c s >>= ·) (funext fun s => ?_)
      exact ih hfmt' hrest (by omega) s

end

/-- Whatever `console_put` does, the format is read up to its terminating zero, and the characters
that are printed are these. -/
def PrintsExactly (fmt : List (BitVec 8)) (args : List PrintArg) (out : List (BitVec 8)) : Prop :=
  ∀ (S : Type) (put : BitVec 8 → S → Except Trap S) (junk : Nat → ByteMem) (fuel : Nat) (s : S),
    fmt.length + 12 ≤ fuel →
    consolePrintString put junk fuel (fmt ++ [0]) args s = putAll put out s

theorem putAll_ok (l : List (BitVec 8)) : putAll (fun _ (s : Unit) => .ok s) l () = .ok () := by
  induction l with
  | nil => rfl
  | cons c l ih => exact ih

/-- `"%"` is read on behind its end. -/
theorem print_percent : ¬∀ (fmt : List (BitVec 8)) (args : List PrintArg) (out : List (BitVec 8)),
    (∀ c ∈ fmt, c ≠ 0) → expand (directives fmt) args = some out →
    PrintsExactly fmt args out := by
  intro claim
  have hrun := claim [percent] [] [] (by decide) rfl Unit (fun _ s => .ok s) (fun _ _ => 0) 13 ()
    (by decide)
  rw [consolePrintString_eq (by decide) rfl (by decide)] at hrun
  cases hrun

theorem printsExactly_of_complete {fmt out : List (BitVec 8)} {args : List PrintArg}
    (hfmt : ∀ c ∈ fmt, c ≠ 0) (hexpand : expand (directives fmt) args = some out)
    (hends : endsInDirective fmt = false) : PrintsExactly fmt args out := by
  intro S put junk fuel s hfuel
  rw [consolePrintString_eq hfmt hexpand hfuel, hends]
  exact bind_pure (putAll put out s)

/-- A format and arguments that go with it are printed as they should be exactly if the format does
not end in a directive. -/
theorem print_string_iff {fmt out : List (BitVec 8)} {args : List PrintArg}
    (hfmt : ∀ c ∈ fmt, c ≠ 0) (hexpand : expand (directives fmt) args = some out) :
    PrintsExactly fmt args out ↔ endsInDirective fmt = false := by
  constructor
  · intro h
    by_contra hends
    have hrun := h Unit (fun _ s => .ok s) (fun _ _ => 0) _ () (Nat.le_refl _)
    rw [consolePrintString_eq hfmt hexpand (Nat.le_refl _), putAll_ok, Except.ok_bind,
      if_pos (by simpa using hends)] at hrun
    cases hrun
  · exact printsExactly_of_complete hfmt hexpand

/-- `"%s=%d\n"` with `"x"` and 10. -/
theorem print_string_assignment :
    PrintsExactly [0x25, 0x73, 0x3d, 0x25, 0x64, 0x0a] [.string [0x78, 0], .word 10]
      [0x78, 0x3d, 0x31, 0x30, 0x0a] :=
  (print_string_iff (by decide) (by decide)).mpr (by decide)

/-- What is printed is seen on the screen. -/
theorem Console.printString_shows {c : Console} {t : Terminal 24 80 (BitVec 8)}
    {fmt out : List (BitVec 8)} {args : List PrintArg} {junk : Nat → ByteMem} {fuel : Nat}
    (h : Shows c t) (hfmt : ∀ c ∈ fmt, c ≠ 0)
    (hexpand : expand (directives fmt) args = some out) (hends : endsInDirective fmt = false)
    (hfuel : fmt.length + 12 ≤ fuel) :
    Except.Total (consolePrintString Console.put junk fuel (fmt ++ [0]) args c) fun c' =>
      Shows c' (out.foldl (fun t ch => t.input blank (key ch)) t) ∧ SameOutside c c' := by
  rw [printsExactly_of_complete hfmt hexpand hends Console Console.put junk fuel c hfuel]
  exact exec_put h out

/-- The characters of the one printer are what the other one writes. A store outside of the buffer
of eleven bytes would be a trap, which only `put` can cause. -/
theorem put_dec_to_str (v : BitVec 32) (m : ByteMem) (buff : Nat) :
    ∃ l, IsString ((toStr v m buff).1.shift buff) l ∧
      ∀ (S : Type) (put : BitVec 8 → S → Except Trap S) (junk : Nat → ByteMem) (stack : ByteMem)
        (fuel : Nat) (s : S),
        consolePutDec put (fun str s => consolePrintString put junk (fuel + 11) str [] s) stack v
          s = putAll put l s :=
  ⟨_, toStr_isString v m buff, fun _ _ _ stack fuel s =>
    consolePutDec_eq (printsPlain (by omega)) stack v s⟩

end BadOs
