import Mathlib.Logic.Relation

/-!
# Programs that access a device

A program is a tree: it ends with a result, or it makes an access and goes on with the answer of
the device. The state of the device also changes by itself, before any access and before the end.

`Triple P p Q` says that from a state with `P` the program `p` does not get stuck, and that `Q`
holds when it ends, whatever the device did meanwhile. An assertion between two accesses has to be
stable, that is, the device keeps it by itself.
-/

/-- Programs with accesses in `A`; an answer to `a` is in `R a`. -/
inductive Prog (A : Type) (R : A → Type) (α : Type) where
  | ret (x : α)
  | stuck
  | access (a : A) (next : R a → Prog A R α)

namespace Prog

variable {A : Type} {R : A → Type} {α β : Type}

def bind : Prog A R α → (α → Prog A R β) → Prog A R β
  | .ret x, f => f x
  | .stuck, _ => .stuck
  | .access a next, f => .access a fun r => (next r).bind f

instance : Monad (Prog A R) where
  pure := .ret
  bind := bind

/-- A single access. -/
def call (a : A) : Prog A R (R a) := .access a .ret

theorem bind_assoc {γ : Type} (p : Prog A R α) (f : α → Prog A R β) (g : β → Prog A R γ) :
    p >>= f >>= g = p >>= fun x => f x >>= g := by
  induction p with
  | ret x => rfl
  | stuck => rfl
  | access a next ih => exact congrArg (Prog.access a) (funext ih)

/-! ## Runs -/

section

variable {S : Type} {respond : (a : A) → S → R a × S} {s s' : S}

/-- The run when the device does nothing by itself. -/
def run (respond : (a : A) → S → R a × S) : Prog A R α → S → Option (α × S)
  | .ret x, s => some (x, s)
  | .stuck, _ => none
  | .access a next, s => (next (respond a s).1).run respond (respond a s).2

theorem run_bind (p : Prog A R α) (f : α → Prog A R β) (s : S) :
    (p >>= f).run respond s = (p.run respond s).bind fun r => (f r.1).run respond r.2 := by
  induction p generalizing s with
  | ret x => rfl
  | stuck => rfl
  | access a next ih => exact ih _ _

theorem run_bind_of_eq {p : Prog A R α} {f : α → Prog A R β} {x : α}
    (h : p.run respond s = some (x, s')) : (p >>= f).run respond s = (f x).run respond s' := by
  rw [run_bind, h, Option.bind_some]

end

end Prog

/-- How a device answers, and what it does by itself. -/
structure Device (A : Type) (R : A → Type) (S : Type) where
  respond : (a : A) → S → R a × S
  event : S → S → Prop

namespace Device

variable {A : Type} {R : A → Type} {S α β : Type} {d : Device A R S}

/-- What the device keeps by itself. -/
def Stable (d : Device A R S) (P : S → Prop) : Prop := ∀ s s', P s → d.event s s' → P s'

theorem Stable.many {P : S → Prop} (h : d.Stable P) {s s' : S} (hs : P s)
    (events : Relation.ReflTransGen d.event s s') : P s' := by
  induction events with
  | refl => exact hs
  | tail _ hevent ih => exact h _ _ ih hevent

/-- From the state on, the program does not get stuck and ends with `Q`. -/
def Ensures (d : Device A R S) (Q : α → S → Prop) : Prog A R α → S → Prop
  | .ret x, s => ∀ s', Relation.ReflTransGen d.event s s' → Q x s'
  | .stuck, _ => False
  | .access a next, s => ∀ s', Relation.ReflTransGen d.event s s' →
      d.Ensures Q (next (d.respond a s').1) (d.respond a s').2

namespace Ensures

variable {Q Q' : α → S → Prop} {s s' : S}

theorem event {p : Prog A R α} (h : d.Ensures Q p s) (hevent : d.event s s') :
    d.Ensures Q p s' := by
  cases p with
  | ret x => exact fun s'' events => h s'' (.head hevent events)
  | stuck => exact h
  | access a next => exact fun s'' events => h s'' (.head hevent events)

theorem access {a : A} {next : R a → Prog A R α} (h : d.Ensures Q (.access a next) s) :
    d.Ensures Q (next (d.respond a s).1) (d.respond a s).2 := h s .refl

theorem ret {x : α} (h : d.Ensures Q (.ret x) s) : Q x s := h s .refl

theorem bind {Q : β → S → Prop} {p : Prog A R α} {f : α → Prog A R β}
    (h : d.Ensures (fun x s => d.Ensures Q (f x) s) p s) : d.Ensures Q (p >>= f) s := by
  induction p generalizing s with
  | ret x => exact h.ret
  | stuck => exact h
  | access a next ih => exact fun s' events => ih _ (h s' events)

theorem mono {p : Prog A R α} (h : d.Ensures Q p s) (weaker : ∀ x s, Q x s → Q' x s) :
    d.Ensures Q' p s := by
  induction p generalizing s with
  | ret x => exact fun s' events => weaker x s' (h s' events)
  | stuck => exact h
  | access a next ih => exact fun s' events => ih _ (h s' events)

/-- The program may end without the device doing anything by itself. -/
theorem ends {p : Prog A R α} (h : d.Ensures Q p s) :
    ∃ x s', Q x s' ∧ Relation.ReflTransGen (fun s s' => ∃ a, s' = (d.respond a s).2) s s' := by
  induction p generalizing s with
  | ret x => exact ⟨x, s, h.ret, .refl⟩
  | stuck => exact h.elim
  | access a next ih =>
      obtain ⟨x, s', hQ, accesses⟩ := ih _ h.access
      exact ⟨x, s', hQ, .head ⟨a, rfl⟩ accesses⟩

end Ensures

/-- From every state with `P` the program ends with `Q`. -/
def Triple (d : Device A R S) (P : S → Prop) (p : Prog A R α) (Q : α → S → Prop) : Prop :=
  ∀ s, P s → d.Ensures Q p s

namespace Triple

variable {P P' : S → Prop} {Q Q' : α → S → Prop}

theorem ret {x : α} (stable : d.Stable P) (h : ∀ s, P s → Q x s) :
    d.Triple P (pure x : Prog A R α) Q :=
  fun _ hs s' events => h s' (stable.many hs events)

/-- The access is made in a state with `P`, and what holds after it is stable. -/
theorem call {a : A} {Q : R a → S → Prop} (stable : d.Stable P) (stable' : ∀ r, d.Stable (Q r))
    (h : ∀ s, P s → Q (d.respond a s).1 (d.respond a s).2) :
    d.Triple P (Prog.call a) Q :=
  fun _ hs s' events _ events' => (stable' _).many (h s' (stable.many hs events)) events'

theorem bind {R' : β → S → Prop} {p : Prog A R α} {f : α → Prog A R β} (h : d.Triple P p Q)
    (rest : ∀ x, d.Triple (Q x) (f x) R') : d.Triple P (p >>= f) R' :=
  fun s hs => Ensures.bind ((h s hs).mono rest)

/-- A part of the assertion that is not about the state. -/
theorem fact {φ : Prop} {p : Prog A R α} (h : φ → d.Triple P p Q) :
    d.Triple (fun s => φ ∧ P s) p Q :=
  fun s hs => h hs.1 s hs.2

theorem choose {ι : Type} {P : ι → S → Prop} {p : Prog A R α} (h : ∀ i, d.Triple (P i) p Q) :
    d.Triple (fun s => ∃ i, P i s) p Q :=
  fun s ⟨i, hs⟩ => h i s hs

theorem consequence {p : Prog A R α} (h : d.Triple P p Q) (pre : ∀ s, P' s → P s)
    (post : ∀ x s, Q x s → Q' x s) : d.Triple P' p Q' :=
  fun s hs => (h s (pre s hs)).mono post

end Triple

end Device
