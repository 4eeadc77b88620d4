import BadOs.Data.Chain

/-!
# Doubly linked lists

Two stores of links, one for each direction. The list is a chain of the one from its head
on, and the reversed list is a chain of the other from its tail on.
-/

variable {next prev next' prev' : Nat → Nat} {head tail a b p : Nat} {l l' : List Nat}

namespace Chain

theorem eq_head (h : Chain next p l) : p = l.head?.getD 0 := by
  cases l with
  | nil => exact h
  | cons a l => exact h.1

theorem head_mem (h : Chain next p l) (hp : p ≠ 0) : p ∈ l := by
  cases l with
  | nil => exact absurd h hp
  | cons a l => exact List.mem_cons.mpr (.inl h.1)

/-- A node is linked to the one behind it. -/
theorem next_eq (h : Chain next p (l ++ a :: l')) : next a = l'.head?.getD 0 :=
  h.suffix.2.2.eq_head

/-- The nodes from `p` on, up to `n` of them. -/
def walk (next : Nat → Nat) : (n p : Nat) → List Nat
  | 0, _ => []
  | n + 1, p => if p = 0 then [] else p :: walk next n (next p)

theorem walk_eq {n : Nat} (h : Chain next p l) (hn : l.length ≤ n) : walk next n p = l := by
  induction l generalizing p n with
  | nil =>
      cases n with
      | zero => rfl
      | succ n => exact if_pos h
  | cons a l ih =>
      obtain ⟨rfl, hp, hrest⟩ := h
      cases n with
      | zero => cases hn
      | succ n => rw [walk, if_neg hp, ih hrest (Nat.le_of_succ_le_succ hn)]

/-- One direction of the removal of a node: its predecessor, if there is one, or else the
pointer to the list gets the link of the node. -/
theorem remove (h : Chain next p (l ++ a :: l')) {q : Nat} (hq : q = l.getLast?.getD 0) :
    Chain (if q = 0 then next else Function.update next q (next a))
      (if p = a then next a else p) (l ++ l') := by
  obtain rfl | ⟨l, b, rfl⟩ := List.eq_nil_or_concat' l
  · obtain rfl : q = 0 := hq
    rw [if_pos rfl, if_pos h.1]
    exact h.2.2
  · rw [List.getLast?_concat] at hq
    obtain rfl : q = b := hq
    have hmem : q ∈ l ++ [q] := List.mem_append_right l (List.mem_singleton_self q)
    have hnot : a ∉ l ++ [q] := fun ha =>
      (List.nodup_append.mp h.nodup).2.2 a ha a List.mem_cons_self rfl
    have hp : p ≠ a := by
      rintro rfl
      refine hnot (List.mem_of_mem_head? ?_)
      have hhead := h.eq_head
      cases l with
      | nil => exact congrArg some hhead.symm
      | cons c l => exact congrArg some hhead.symm
    rw [if_neg (h.ne_zero (List.mem_append_left _ hmem)), if_neg hp, List.append_assoc]
    rw [List.append_assoc] at h
    exact h.erase

end Chain

/-- The nodes of `l`, from `head` on by `next` and from `tail` on by `prev`. -/
structure DoubleChain (next prev : Nat → Nat) (head tail : Nat) (l : List Nat) : Prop where
  forward : Chain next head l
  backward : Chain prev tail l.reverse

namespace DoubleChain

theorem nil : DoubleChain next prev 0 0 [] := ⟨rfl, rfl⟩

theorem congr (h : DoubleChain next prev head tail l) (hnext : ∀ a ∈ l, next' a = next a)
    (hprev : ∀ a ∈ l, prev' a = prev a) : DoubleChain next' prev' head tail l :=
  ⟨h.forward.congr hnext, h.backward.congr fun a ha => hprev a (List.mem_reverse.mp ha)⟩

theorem nodup (h : DoubleChain next prev head tail l) : l.Nodup := h.forward.nodup

theorem ne_zero (h : DoubleChain next prev head tail l) (ha : a ∈ l) : a ≠ 0 :=
  h.forward.ne_zero ha

theorem head_eq (h : DoubleChain next prev head tail l) : head = l.head?.getD 0 :=
  h.forward.eq_head

theorem tail_eq (h : DoubleChain next prev head tail l) : tail = l.getLast?.getD 0 := by
  rw [← List.head?_reverse]
  exact h.backward.eq_head

theorem tail_mem (h : DoubleChain next prev head tail l) (htail : tail ≠ 0) : tail ∈ l :=
  List.mem_reverse.mp (h.backward.head_mem htail)

theorem next_eq (h : DoubleChain next prev head tail (l ++ a :: l')) :
    next a = l'.head?.getD 0 := h.forward.next_eq

theorem prev_eq (h : DoubleChain next prev head tail (l ++ a :: l')) :
    prev a = l.getLast?.getD 0 := by
  have hback := h.backward
  rw [List.reverse_append, List.reverse_cons, List.append_assoc] at hback
  rw [← List.head?_reverse]
  exact hback.next_eq

theorem next_mem (h : DoubleChain next prev head tail (l ++ a :: l')) (hne : next a ≠ 0) :
    next a ∈ l' := by
  rw [h.next_eq] at hne ⊢
  cases hhead : l'.head? with
  | none => exact absurd (congrArg (Option.getD · 0) hhead) hne
  | some b => exact List.mem_of_mem_head? hhead

theorem prev_mem (h : DoubleChain next prev head tail (l ++ a :: l')) (hne : prev a ≠ 0) :
    prev a ∈ l := by
  rw [h.prev_eq] at hne ⊢
  cases hlast : l.getLast? with
  | none => exact absurd (congrArg (Option.getD · 0) hlast) hne
  | some b => exact List.mem_of_getLast? hlast

theorem first (h : DoubleChain next prev head tail l) (hl : l ≠ []) :
    l.head? = some head ∧ prev head = 0 := by
  cases l with
  | nil => exact absurd rfl hl
  | cons a l =>
      obtain rfl : head = a := h.forward.head_eq
      exact ⟨rfl, h.prev_eq (l := [])⟩

theorem last (h : DoubleChain next prev head tail l) (hl : l ≠ []) :
    l.getLast? = some tail ∧ next tail = 0 := by
  obtain rfl | ⟨l, a, rfl⟩ := List.eq_nil_or_concat' l
  · exact absurd rfl hl
  · have htail := h.tail_eq
    rw [List.getLast?_concat] at htail
    obtain rfl : tail = a := htail
    exact ⟨List.getLast?_concat, h.next_eq⟩

/-- The two directions are inverse to each other. -/
theorem next_eq_iff (h : DoubleChain next prev head tail l) (ha : a ∈ l) (hb : b ∈ l) :
    next a = b ↔ prev b = a := by
  constructor
  · rintro rfl
    obtain ⟨l₁, l₂, rfl⟩ := List.mem_iff_append.mp ha
    have hnext := h.next_eq
    cases l₂ with
    | nil => exact absurd hnext (h.ne_zero hb)
    | cons c l₂ =>
        have hsplit : l₁ ++ a :: c :: l₂ = (l₁ ++ [a]) ++ c :: l₂ := by simp
        rw [hsplit] at h
        have hprev := h.prev_eq
        rw [List.getLast?_concat] at hprev
        rw [show next a = c from hnext]
        exact hprev
  · rintro rfl
    obtain ⟨l₁, l₂, rfl⟩ := List.mem_iff_append.mp hb
    have hprev := h.prev_eq
    obtain rfl | ⟨l₁, c, rfl⟩ := List.eq_nil_or_concat' l₁
    · exact absurd hprev (h.ne_zero ha)
    · rw [List.getLast?_concat] at hprev
      rw [List.append_assoc] at h
      rw [show prev b = c from hprev]
      exact h.next_eq

/-- The first node of a list. -/
theorem single (hb : b ≠ 0) (hnext : next b = 0) (hprev : prev b = 0) :
    DoubleChain next prev b b [b] := ⟨.cons hb hnext, .cons hb hprev⟩

/-- A node behind the last one. -/
theorem append (h : DoubleChain next prev head tail l) (htail : tail ≠ 0) (hb : b ≠ 0)
    (hnew : b ∉ l) :
    DoubleChain (Function.update (Function.update next tail b) b 0) (Function.update prev b tail)
      head b (l ++ [b]) where
  forward := by
    obtain rfl | ⟨l, a, rfl⟩ := List.eq_nil_or_concat' l
    · exact absurd h.tail_eq htail
    · have ha := h.tail_eq
      rw [List.getLast?_concat] at ha
      obtain rfl : tail = a := ha
      have hne : tail ≠ b := by
        rintro rfl
        exact hnew (List.mem_append_right l (List.mem_singleton_self _))
      have hforward : Chain (Function.update next b 0) head (l ++ [tail]) := by
        refine h.forward.congr fun c hc => Function.update_of_ne ?_ _ _
        rintro rfl
        exact hnew hc
      rw [Function.update_comm hne, List.append_assoc]
      exact hforward.append hb hnew (Function.update_self b 0 next)
  backward := by
    rw [List.reverse_append]
    exact h.backward.push hb fun hmem => hnew (List.mem_reverse.mp hmem)

/-- A node is removed: each of its neighbours, or else the pointer to the list, gets the
link of the node. -/
theorem remove (h : DoubleChain next prev head tail (l ++ a :: l')) :
    DoubleChain (if prev a = 0 then next else Function.update next (prev a) (next a))
      (if next a = 0 then prev else Function.update prev (next a) (prev a))
      (if head = a then next a else head) (if tail = a then prev a else tail) (l ++ l') where
  forward := h.forward.remove h.prev_eq
  backward := by
    have hback := h.backward
    rw [List.reverse_append, List.reverse_cons, List.append_assoc] at hback
    rw [List.reverse_append]
    refine hback.remove ?_
    rw [List.getLast?_reverse]
    exact h.next_eq

end DoubleChain
