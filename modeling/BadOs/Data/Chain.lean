import Mathlib.Data.List.Nodup
import Mathlib.Logic.Function.Iterate

/-!
# Singly linked lists

A store of links is a function from nodes to their successors; zero is the null
pointer. `Chain next p l` says that the nodes reachable from `p` are those of `l`, in
this order. A chain ends, so no node occurs in it twice.
-/

/-- Following `next` from `p` visits the nodes of `l` and ends at zero. -/
def Chain (next : Nat → Nat) : Nat → List Nat → Prop
  | p, [] => p = 0
  | p, a :: l => p = a ∧ a ≠ 0 ∧ Chain next (next a) l

namespace Chain

variable {next next' : Nat → Nat} {p a b : Nat} {l l' : List Nat}

theorem cons (ha : a ≠ 0) (h : Chain next (next a) l) : Chain next a (a :: l) := ⟨rfl, ha, h⟩

theorem ne_zero (h : Chain next p l) (ha : a ∈ l) : a ≠ 0 := by
  induction l generalizing p with
  | nil => cases ha
  | cons b l ih =>
      obtain ⟨_, hb, hrest⟩ := h
      obtain rfl | ha := List.mem_cons.mp ha
      · exact hb
      · exact ih hrest ha

theorem congr (h : Chain next p l) (same : ∀ a ∈ l, next' a = next a) : Chain next' p l := by
  induction l generalizing p with
  | nil => exact h
  | cons b l ih =>
      obtain ⟨rfl, hb, hrest⟩ := h
      obtain ⟨hsame, same⟩ := List.forall_mem_cons.mp same
      exact ⟨rfl, hb, hsame ▸ ih hrest same⟩

/-- The links determine the list. -/
theorem unique (h : Chain next p l) (h' : Chain next p l') : l' = l := by
  induction l generalizing p l' with
  | nil =>
      cases l' with
      | nil => rfl
      | cons b l' => exact absurd (h'.1.symm.trans h) h'.2.1
  | cons a l ih =>
      obtain ⟨rfl, ha, hrest⟩ := h
      cases l' with
      | nil => exact absurd h' ha
      | cons b l' =>
          obtain ⟨rfl, _, hrest'⟩ := h'
          rw [ih hrest hrest']

/-- The rest of a list, from any of its nodes on. -/
theorem suffix (h : Chain next p (l ++ a :: l')) : Chain next a (a :: l') := by
  induction l generalizing p with
  | nil =>
      obtain ⟨rfl, hrest⟩ := h
      exact ⟨rfl, hrest⟩
  | cons b l ih => exact ih h.2.2

theorem nodup (h : Chain next p l) : l.Nodup := by
  induction l generalizing p with
  | nil => exact List.nodup_nil
  | cons a l ih =>
      obtain ⟨rfl, ha, hrest⟩ := h
      refine List.nodup_cons.mpr ⟨fun hmem => ?_, ih hrest⟩
      obtain ⟨l₁, l₂, rfl⟩ := List.mem_iff_append.mp hmem
      -- The list from the second occurrence on would be the list from the first one on.
      have heq := congrArg List.length (unique hrest.suffix (cons ha hrest))
      rw [List.length_cons, List.length_cons, List.length_append, List.length_cons] at heq
      omega

theorem head_eq (h : Chain next p (a :: l)) : p = a := h.1

theorem eq_nil_iff (h : Chain next p l) : l = [] ↔ p = 0 := by
  cases l with
  | nil => exact ⟨fun _ => h, fun _ => rfl⟩
  | cons a l => exact ⟨fun hnil => (nomatch hnil), fun hp => absurd (h.1.symm.trans hp) h.2.1⟩

/-- The link of a node is zero only at the end. -/
theorem next_eq_zero_iff (h : Chain next p l) (ha : a ∈ l) : next a = 0 ↔ l.getLast? = some a := by
  induction l generalizing p with
  | nil => cases ha
  | cons b l ih =>
      obtain ⟨rfl, hb, hrest⟩ := h
      cases l with
      | nil =>
          obtain rfl := List.mem_singleton.mp ha
          exact ⟨fun _ => rfl, fun _ => hrest⟩
      | cons c l =>
          rw [List.getLast?_cons_cons]
          obtain rfl | ha := List.mem_cons.mp ha
          · have hc : next a ≠ 0 := hrest.1.symm ▸ hrest.2.1
            refine ⟨fun hzero => absurd hzero hc, fun hlast => ?_⟩
            have hnodup := (cons hb hrest).nodup
            exact absurd (List.mem_of_getLast? hlast) (List.nodup_cons.mp hnodup).1
          · exact ih hrest ha

/-- A node is linked to the last one. -/
theorem append (h : Chain next p (l ++ [a])) (hb : b ≠ 0) (hnew : b ∉ l ++ [a])
    (hnext : next b = 0) : Chain (Function.update next a b) p (l ++ [a, b]) := by
  induction l generalizing p with
  | nil =>
      obtain ⟨rfl, ha, _⟩ := h
      have hne : b ≠ p := fun heq => hnew (List.mem_singleton.mpr heq)
      refine ⟨rfl, ha, ?_, hb, ?_⟩
      · exact Function.update_self p b next
      · exact (Function.update_of_ne hne b next).trans hnext
  | cons c l ih =>
      have hne : c ≠ a := by
        rintro rfl
        exact (List.nodup_cons.mp h.nodup).1 (List.mem_append_right l (List.mem_singleton_self c))
      obtain ⟨rfl, hc, hrest⟩ := h
      refine ⟨rfl, hc, ?_⟩
      rw [Function.update_of_ne hne]
      exact ih hrest fun hmem => hnew (List.mem_cons_of_mem p hmem)

/-- Each node is reached by following the links, whatever the link of the last one is. -/
theorem exists_iterate (h : Chain (Function.update next b 0) p l) (ha : a ∈ l) :
    ∃ n, next^[n] p = a := by
  induction l generalizing p with
  | nil => cases ha
  | cons c l ih =>
      obtain ⟨rfl, hp, hrest⟩ := h
      obtain rfl | ha := List.mem_cons.mp ha
      · exact ⟨0, rfl⟩
      · have hne : p ≠ b := by
          rintro rfl
          rw [Function.update_self] at hrest
          rw [hrest.eq_nil_iff.mpr rfl] at ha
          cases ha
        rw [Function.update_of_ne hne] at hrest
        obtain ⟨n, hn⟩ := ih hrest ha
        exact ⟨n + 1, hn⟩

/-- A node put in front of the others. -/
theorem push (h : Chain next p l) (hb : b ≠ 0) (hnew : b ∉ l) :
    Chain (Function.update next b p) b (b :: l) := by
  refine ⟨rfl, hb, ?_⟩
  rw [Function.update_self]
  refine h.congr fun a ha => Function.update_of_ne ?_ _ _
  rintro rfl
  exact hnew ha

/-- The predecessor of a node is the first one that links to it. -/
theorem find?_next (h : Chain next p (l ++ b :: a :: l')) :
    (l ++ b :: a :: l').find? (fun c => next c == a) = some b := by
  induction l generalizing p with
  | nil => exact List.find?_cons_of_pos (beq_iff_eq.mpr h.2.2.1)
  | cons c l ih =>
      have hnodup := h.2.2.nodup
      have hne : (next c == a) = false := by
        refine beq_eq_false_iff_ne.mpr fun heq => ?_
        have hrest := h.2.2
        rw [heq] at hrest
        cases l with
        | nil =>
            cases hrest.1
            exact (List.nodup_cons.mp hnodup).1 List.mem_cons_self
        | cons d l =>
            cases hrest.1
            refine (List.nodup_cons.mp hnodup).1 (List.mem_append_right l ?_)
            exact List.mem_cons_of_mem _ List.mem_cons_self
      rw [List.cons_append, List.find?_cons_of_neg (by rw [hne]; exact Bool.false_ne_true)]
      exact ih h.2.2

/-- No node links to the first one. -/
theorem find?_next_head (h : Chain next p (a :: l)) :
    (a :: l).find? (fun c => next c == a) = none := by
  have hnodup := h.nodup
  have hlinks : ∀ {p l}, Chain next p l → ∀ c ∈ l, next c = 0 ∨ next c ∈ l.tail := by
    intro p l hl
    induction l generalizing p with
    | nil => exact fun c hc => (nomatch hc)
    | cons d l ih =>
        obtain ⟨rfl, hd, hrest⟩ := hl
        refine List.forall_mem_cons.mpr ⟨?_, fun c hc => ?_⟩
        · cases l with
          | nil => exact .inl hrest
          | cons e l => exact .inr (hrest.1 ▸ List.mem_cons_self)
        · exact (ih hrest c hc).imp_right List.mem_of_mem_tail
  refine List.find?_eq_none.mpr fun c hc heq => ?_
  obtain hzero | hmem := hlinks h c hc
  · exact h.2.1 ((eq_of_beq heq).symm.trans hzero)
  · exact (List.nodup_cons.mp hnodup).1 (eq_of_beq heq ▸ hmem)

/-- A node in the middle is unlinked by its predecessor. -/
theorem erase (h : Chain next p (l ++ b :: a :: l')) :
    Chain (Function.update next b (next a)) p (l ++ b :: l') := by
  induction l generalizing p with
  | nil =>
      have hnodup := h.nodup
      obtain ⟨rfl, hb, rfl, ha, hrest⟩ := h
      refine ⟨rfl, hb, ?_⟩
      rw [Function.update_self]
      refine hrest.congr fun c hc => Function.update_of_ne ?_ _ _
      rintro rfl
      exact (List.nodup_cons.mp hnodup).1 (List.mem_cons_of_mem _ hc)
  | cons c l ih =>
      have hne : c ≠ b := by
        rintro rfl
        exact (List.nodup_cons.mp h.nodup).1 (List.mem_append_right l List.mem_cons_self)
      obtain ⟨rfl, hc, hrest⟩ := h
      refine ⟨rfl, hc, ?_⟩
      rw [Function.update_of_ne hne]
      exact ih hrest

/-- A node is unlinked by its predecessor, or by the pointer to the list if it has none. -/
theorem unlink (h : Chain next p l) (ha : a ∈ l) :
    (∀ b, l.find? (fun c => next c == a) = some b →
        Chain (Function.update next b (next a)) p (l.erase a)) ∧
      (l.find? (fun c => next c == a) = none → Chain next (next a) (l.erase a)) := by
  obtain ⟨l₁, l₂, rfl⟩ := List.mem_iff_append.mp ha
  have hnodup := h.nodup
  obtain rfl | ⟨l₁, b, rfl⟩ := List.eq_nil_or_concat' l₁
  · refine ⟨fun b hfind => ?_, fun _ => ?_⟩
    · cases h.1
      cases (find?_next_head h).symm.trans hfind
    · rw [List.nil_append, List.erase_cons_head]
      exact h.2.2
  · rw [List.append_assoc, List.singleton_append] at h hnodup ⊢
    refine ⟨fun c hfind => ?_, fun hnone => ?_⟩
    · cases h.find?_next.symm.trans hfind
      have hmem : a ∉ l₁ ∧ b ≠ a := by
        have hdisjoint := List.nodup_append.mp hnodup
        refine ⟨fun hl => hdisjoint.2.2 a hl a ?_ rfl, fun heq => ?_⟩
        · exact List.mem_cons_of_mem b List.mem_cons_self
        · exact (List.nodup_cons.mp hdisjoint.2.1).1 (heq ▸ List.mem_cons_self)
      rw [List.erase_append_right _ hmem.1, List.erase_cons_tail (by simpa using hmem.2),
        List.erase_cons_head]
      exact h.erase
    · cases h.find?_next.symm.trans hnone

end Chain
