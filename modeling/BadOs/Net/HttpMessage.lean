import BadOs.Net.Services

/-!
# The message of the web server

The size of the response is computed before the decimal number is written, and
does not count its digits: the message ends before the response does, and the last
separator is written behind the allocation.
-/

namespace BadOs

/-! ## What the message is meant to be -/

/-- The characters of a string. -/
def bytesOf (s : List Char) : List (BitVec 8) := s.map fun c => BitVec.ofNat 8 c.toNat

/-- Header, decimal length, separator, body, separator. -/
def expectedMessage (body : ByteMem) (count : Nat) : List (BitVec 8) :=
  bytesOf httpHeader.toList ++ bytesOf (Nat.toDigits 10 count) ++ bytesOf httpSeparator.toList ++
    body.slice 0 count ++ bytesOf httpSeparator.toList

/-- What `http_read` hands to `tcp_send` is the expected message, when the allocation
held `heap` before. -/
def SendsExpected (heap body : ByteMem) (count : BitVec 32) : Prop :=
  (httpResponse heap body count).1.slice 0 ((httpResponse heap body count).2.setWidth 16).toNat =
    expectedMessage body count.toNat

/-- `http_read` writes only to the bytes that it allocated. -/
def WritesInside (heap body : ByteMem) (count : BitVec 32) : Prop :=
  ∀ x, (httpResponse heap body count).2.toNat ≤ x → (httpResponse heap body count).1 x = heap x

/-! ## What it is -/

theorem httpResponse_total (heap body : ByteMem) {count : BitVec 32} (h : count.toNat ≤ 256) :
    (httpResponse heap body count).2.toNat = count.toNat + httpHeader.length + 8 := by
  have hlen : httpHeader.length = 58 := by decide +kernel
  simp only [httpResponse, BitVec.toNat_add, BitVec.toNat_ofNat, hlen]
  omega

theorem le_toStrLoop (fuel : Nat) (d : BitVec 32) (m : ByteMem) (p : Nat) :
    p ≤ (toStrLoop fuel d m p).2 := by
  induction fuel generalizing d m p with
  | zero => exact Nat.le_refl p
  | succ fuel ih =>
      rw [toStrLoop]
      split
      · exact Nat.le_refl p
      · exact (Nat.le_succ p).trans (ih _ _ _)

/-- A number has a digit. -/
theorem lt_toStr (d : BitVec 32) (m : ByteMem) (buff : Nat) : buff < (toStr d m buff).2 := by
  unfold toStr
  split
  · exact Nat.lt_add_of_pos_right (by decide)
  · next hd =>
    dsimp only
    rw [toStrLoop, if_neg hd]
    exact le_toStrLoop _ _ _ _

/-- The last byte that `http_read` stores is the end of the second separator. -/
theorem httpResponse_last (heap body : ByteMem) {count : BitVec 32} (h : count.toNat ≤ 256) :
    ∃ x, (httpResponse heap body count).2.toNat ≤ x ∧ (httpResponse heap body count).1 x = 10 := by
  have hdigits := lt_toStr count (strncpy heap 0 (stringMem httpHeader) httpHeader.length)
    httpHeader.length
  have hsep : strnlen (stringMem httpSeparator) 4 = 4 := by decide +kernel
  refine ⟨(toStr count (strncpy heap 0 (stringMem httpHeader) httpHeader.length)
    httpHeader.length).2 + 4 + count.toNat + 3, ?_, ?_⟩
  · rw [httpResponse_total heap body h]
    omega
  · dsimp only [httpResponse]
    rw [strncpy, hsep, if_neg (Nat.lt_irrefl 4), ByteMem.copy, if_pos (by omega)]
    rw [show ∀ a : Nat, 0 + (a + 3 - a) = 3 by omega]
    decide +kernel

theorem length_expectedMessage (body : ByteMem) (count : Nat) :
    count + httpHeader.length + 8 < (expectedMessage body count).length := by
  have hdigits : 0 < (Nat.toDigits 10 count).length := Nat.length_toDigits_pos
  have hsep : httpSeparator.toList.length = 4 := by decide +kernel
  simp only [expectedMessage, bytesOf, List.length_append, List.length_map, ByteMem.length_slice,
    hsep, String.length_toList]
  omega

/-- The message is shorter than the expected one. -/
theorem not_sendsExpected (heap body : ByteMem) {count : BitVec 32} (h : count.toNat ≤ 256) :
    ¬SendsExpected heap body count := by
  intro hsend
  have hlen := congrArg List.length hsend
  have hexpected := length_expectedMessage body count.toNat
  have htotal := httpResponse_total heap body h
  have hheader : httpHeader.length = 58 := by decide +kernel
  rw [ByteMem.length_slice, BitVec.toNat_setWidth] at hlen
  omega

/-- The body `"hi"` is sent with one byte of the last separator missing. -/
theorem http_response_short : ¬∀ (heap body : ByteMem) (count : BitVec 32), count.toNat ≤ 256 →
    SendsExpected heap body count ∧ WritesInside heap body count := by
  intro claim
  have hsend := (claim (fun _ => 0) (stringMem "hi") 2 (by decide)).1
  exact not_sendsExpected _ _ (by decide) hsend

/-- The message is never the expected one, and the allocation is never kept to. -/
theorem http_response_never (body : ByteMem) {count : BitVec 32} (h : count.toNat ≤ 256) :
    (∀ heap, ¬SendsExpected heap body count) ∧ ¬∀ heap, WritesInside heap body count := by
  constructor
  · intro heap
    exact not_sendsExpected heap body h
  · intro hinside
    obtain ⟨x, hx, hlast⟩ := httpResponse_last (fun _ => 0) body h
    rw [hinside _ x hx] at hlast
    exact absurd hlast (show ¬(0 : BitVec 8) = 10 by decide)

/-- The text `hello`. -/
theorem http_response_never_hello : (∀ heap, ¬SendsExpected heap (stringMem "hello") 5) ∧
    ¬∀ heap, WritesInside heap (stringMem "hello") 5 :=
  http_response_never _ (by decide)

end BadOs
