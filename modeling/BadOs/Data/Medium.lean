import BadOs.Data.Run
import Mathlib.Data.List.FinRange
import Mathlib.Logic.Function.Basic

/-!
# Hosts on a shared medium

Each of `N` hosts has a state of its own. What a host sends goes to every other host, in
one copy each; a copy is received at any later time, in any order, or never. The two
functions of a host are parameters and may fail.
-/

universe u

namespace Medium

/-- The two functions of the hosts: `act` is an operation that the host starts itself,
`receive` gets a message and something else that comes with its receipt. Both return the
next state and the messages that are sent. -/
structure Protocol (ε : Type u) (N : Nat) (S M O R : Type) where
  act : Fin N → O → S → Except ε (S × List M)
  receive : Fin N → M → R → S → Except ε (S × List M)

/-- The states of the hosts, and the copies that were not received yet, each with the host
that it goes to. -/
structure World (N : Nat) (S M : Type) where
  host : Fin N → S
  inFlight : List (Fin N × M)

inductive Event (N : Nat) (O R : Type) where
  | act (a : Fin N) (o : O)
  /-- The copy at this place is received. -/
  | deliver (i : Nat) (r : R)

variable {ε : Type u} {N : Nat} {S M O R : Type}

/-- One copy of each message for every host but `a`. -/
def copies (a : Fin N) (ms : List M) : List (Fin N × M) :=
  ms.flatMap fun m => ((List.finRange N).filter (· ≠ a)).map fun c => (c, m)

theorem mem_copies {a c : Fin N} {ms : List M} {m : M} :
    (c, m) ∈ copies a ms ↔ c ≠ a ∧ m ∈ ms := by
  simp only [copies, List.mem_flatMap, List.mem_map, List.mem_filter, List.mem_finRange, true_and,
    decide_eq_true_eq, Prod.mk.injEq]
  constructor
  · rintro ⟨m', hm, c', hc, rfl, rfl⟩
    exact ⟨hc, hm⟩
  · rintro ⟨hc, hm⟩
    exact ⟨m, hm, c, hc, rfl, rfl⟩

@[simp] theorem copies_nil (a : Fin N) : copies a ([] : List M) = [] := rfl

namespace World

/-- Host `a` goes to its next state and sends. -/
def set (w : World N S M) (a : Fin N) (r : S × List M) : World N S M where
  host := Function.update w.host a r.1
  inFlight := w.inFlight ++ copies a r.2

/-- The copy at place `i` is gone. -/
def drop (w : World N S M) (i : Nat) : World N S M := { w with inFlight := w.inFlight.eraseIdx i }

variable {w : World N S M} {a c : Fin N} {r : S × List M}

@[simp] theorem set_inFlight : (w.set a r).inFlight = w.inFlight ++ copies a r.2 := rfl

@[simp] theorem set_host_self : (w.set a r).host a = r.1 := Function.update_self _ _ _

theorem set_host_of_ne (h : c ≠ a) : (w.set a r).host c = w.host c := Function.update_of_ne h _ _

/-- Nothing happens. -/
theorem set_self : w.set a (w.host a, []) = w := by
  rw [set, Function.update_eq_self, copies_nil, List.append_nil]

end World

/-- An event at a place where there is no copy does nothing. -/
def step (p : Protocol ε N S M O R) (w : World N S M) :
    Event N O R → Except ε (World N S M)
  | .act a o => do
      let r ← p.act a o (w.host a)
      return w.set a r
  | .deliver i x =>
      match w.inFlight[i]? with
      | none => .ok w
      | some (c, m) => do
          let r ← p.receive c m x (w.host c)
          return (w.drop i).set c r

variable {p : Protocol ε N S M O R} {w w' : World N S M} {a c : Fin N} {o : O} {m : M} {x : R}
  {i : Nat}

theorem step_act {r : S × List M} (h : p.act a o (w.host a) = .ok r) :
    step p w (.act a o) = .ok (w.set a r) := by
  rw [step, h]
  rfl

theorem step_deliver {r : S × List M} (hi : w.inFlight[i]? = some (c, m))
    (h : p.receive c m x (w.host c) = .ok r) :
    step p w (.deliver i x) = .ok ((w.drop i).set c r) := by
  rw [step, hi]
  dsimp only
  rw [h]
  rfl

/-- The host does not care about the message. -/
theorem step_deliver_same (hi : w.inFlight[i]? = some (c, m))
    (h : p.receive c m x (w.host c) = .ok (w.host c, [])) :
    step p w (.deliver i x) = .ok (w.drop i) := by
  rw [step_deliver hi h]
  exact congrArg Except.ok World.set_self

/-! ## Invariants -/

/-- Every host has its invariant, and every copy on its way to a host is the message of
another one. -/
structure Sound (I : Fin N → S → Prop) (A : Fin N → M → Prop) (w : World N S M) : Prop where
  host : ∀ a, I a (w.host a)
  inFlight : ∀ c m, (c, m) ∈ w.inFlight → ∃ a, a ≠ c ∧ A a m

/-- What the two functions must keep, in every host. -/
structure Keeps (p : Protocol ε N S M O R) (I : Fin N → S → Prop) (A : Fin N → M → Prop) :
    Prop where
  act : ∀ a o s, I a s → (p.act a o s).Post fun r => I a r.1 ∧ ∀ m ∈ r.2, A a m
  receive : ∀ a c m x s, a ≠ c → A a m → I c s →
    (p.receive c m x s).Post fun r => I c r.1 ∧ ∀ m' ∈ r.2, A c m'

variable {I : Fin N → S → Prop} {A : Fin N → M → Prop}

theorem Sound.set {r : S × List M} (h : Sound I A w) (hr : I a r.1 ∧ ∀ m ∈ r.2, A a m) :
    Sound I A (w.set a r) := by
  refine ⟨fun c => ?_, fun c m hm => ?_⟩
  · by_cases hc : c = a
    · subst hc
      rw [World.set_host_self]
      exact hr.1
    · rw [World.set_host_of_ne hc]
      exact h.host c
  · obtain hm | hm := List.mem_append.mp hm
    · exact h.inFlight c m hm
    · obtain ⟨hc, hm⟩ := mem_copies.mp hm
      exact ⟨a, hc.symm, hr.2 m hm⟩

theorem Sound.drop (h : Sound I A w) (i : Nat) : Sound I A (w.drop i) :=
  ⟨h.host, fun c m hm => h.inFlight c m (List.mem_of_mem_eraseIdx hm)⟩

theorem Sound.step (keeps : Keeps p I A) (h : Sound I A w) {e : Event N O R}
    (hstep : Medium.step p w e = .ok w') : Sound I A w' := by
  cases e with
  | act a o =>
      obtain ⟨r, hr, hw⟩ := Except.bind_eq_ok.mp hstep
      cases hw
      exact h.set (keeps.act a o _ (h.host a) r hr)
  | deliver i x =>
      rw [Medium.step] at hstep
      cases hi : w.inFlight[i]? with
      | none =>
          rw [hi] at hstep
          cases hstep
          exact h
      | some f =>
          obtain ⟨c, m⟩ := f
          rw [hi] at hstep
          obtain ⟨r, hr, hw⟩ := Except.bind_eq_ok.mp hstep
          cases hw
          obtain ⟨a, hac, ha⟩ := h.inFlight c m (List.mem_of_getElem? hi)
          exact (h.drop i).set (keeps.receive a c m x _ hac ha (h.host c) r hr)

/-- The invariant holds after every run. -/
theorem Sound.run {guard : World N S M → Event N O R → Prop} {es : List (Event N O R)}
    (keeps : Keeps p I A) (h : Sound I A w) (run : Transition.Run (Medium.step p) guard w es w') :
    Sound I A w' :=
  run.invariant (fun _ _ _ hinv _ hstep => hinv.step keeps hstep) h

end Medium
