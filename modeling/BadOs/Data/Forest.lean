import Mathlib.Data.List.Perm.Basic

/-!
# Forests in breadth-first order

A queue that starts with the roots of a forest, and to which the children of a tree are added
when its root is taken out, meets every node of the forest once.
-/

/-- A tree with any number of children. -/
inductive Rose (α : Type*) where
  | node (label : α) (children : List (Rose α))

namespace Rose

variable {α : Type*}

def label : Rose α → α
  | .node a _ => a

def children : Rose α → List (Rose α)
  | .node _ ts => ts

mutual

/-- The labels of a tree. -/
def labels : Rose α → List α
  | .node a ts => a :: forestLabels ts

/-- The labels of the trees of a forest. -/
def forestLabels : List (Rose α) → List α
  | [] => []
  | t :: ts => t.labels ++ forestLabels ts

end

/-- The number of nodes of a forest. -/
def size (ts : List (Rose α)) : Nat := (forestLabels ts).length

@[simp] theorem forestLabels_append (ts us : List (Rose α)) :
    forestLabels (ts ++ us) = forestLabels ts ++ forestLabels us := by
  induction ts with
  | nil => rw [forestLabels]; rfl
  | cons t ts ih => rw [List.cons_append, forestLabels, forestLabels, ih, List.append_assoc]

theorem size_cons (a : α) (children ts : List (Rose α)) :
    size (.node a children :: ts) = size (ts ++ children) + 1 := by
  simp only [size, forestLabels, labels, forestLabels_append, List.length_append, List.length_cons]
  omega

/-- The labels in the order in which a queue meets them. -/
def breadthFirst : List (Rose α) → List α
  | [] => []
  | .node a children :: ts => a :: breadthFirst (ts ++ children)
termination_by ts => size ts
decreasing_by
  rw [size_cons]
  exact Nat.lt_succ_self _

@[simp] theorem breadthFirst_nil : breadthFirst ([] : List (Rose α)) = [] := by
  rw [breadthFirst]

theorem breadthFirst_cons (a : α) (children ts : List (Rose α)) :
    breadthFirst (.node a children :: ts) = a :: breadthFirst (ts ++ children) := by
  rw [breadthFirst]

/-- Every node is met once. -/
theorem breadthFirst_perm (ts : List (Rose α)) : (breadthFirst ts).Perm (forestLabels ts) := by
  induction ts using breadthFirst.induct with
  | case1 => rw [breadthFirst_nil, forestLabels]
  | case2 a children ts ih =>
      rw [breadthFirst_cons, forestLabels, labels, List.cons_append]
      apply List.Perm.cons
      refine ih.trans ?_
      rw [forestLabels_append]
      exact List.perm_append_comm

end Rose
