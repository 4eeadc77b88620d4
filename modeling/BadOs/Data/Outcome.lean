import Mathlib.Logic.Relation

/-!
# Outcomes of fallible computations

Five judgements about `Except`, each with its rules for `pure`, `>>=` and
weakening: `Post` says what holds if the computation returns, `Total` that it
returns and what holds then, `Within` that it does so or fails in one of certain ways,
`Agree` compares the results of two computations, and `Lockstep` also how they fail.
-/

universe u v

namespace Except

variable {ε : Type u} {α β : Type v}

theorem bind_eq_ok {x : Except ε α} {f : α → Except ε β} {b : β} :
    (x >>= f) = .ok b ↔ ∃ a, x = .ok a ∧ f a = .ok b := by
  cases x with
  | error e => exact ⟨(nomatch ·), fun ⟨_, h, _⟩ => nomatch h⟩
  | ok a => exact ⟨fun h => ⟨a, rfl, h⟩, fun ⟨_, h, h'⟩ => by cases h; exact h'⟩

theorem ok_bind (a : α) (f : α → Except ε β) : (.ok a >>= f) = f a := rfl

theorem bind_error {x : Except ε α} {f : α → Except ε β} {e : ε} (h : x = .error e) :
    (x >>= f) = .error e := by
  rw [h]
  rfl

@[simp] theorem pure_eq_ok_iff {a b : α} : (pure a : Except ε α) = .ok b ↔ a = b :=
  ⟨fun h => Except.ok.inj h, fun h => by rw [h]; rfl⟩

/-- The computation succeeds and its result passes the test. -/
def holds (x : Except ε α) (p : α → Bool) : Bool :=
  match x with
  | .ok a => p a
  | .error _ => false

theorem exists_of_holds {x : Except ε α} {p : α → Bool} (h : x.holds p = true) :
    ∃ a, x = .ok a ∧ p a = true := by
  cases x with
  | error e => cases h
  | ok a => exact ⟨a, rfl, h⟩

/-! ## Partial correctness -/

/-- Whatever the computation returns satisfies `Q`. -/
def Post (x : Except ε α) (Q : α → Prop) : Prop := ∀ a, x = .ok a → Q a

namespace Post

variable {x : Except ε α} {f : α → Except ε β} {a : α} {e : ε} {Q Q' : α → Prop} {R : β → Prop}

theorem ok (h : Q a) : Post (.ok a : Except ε α) Q := fun _ ha => Except.ok.inj ha ▸ h

theorem error : Post (.error e : Except ε α) Q := fun _ ha => nomatch ha

theorem mono (h : Post x Q) (weaker : ∀ a, Q a → Q' a) : Post x Q' :=
  fun a ha => weaker a (h a ha)

theorem bind (h : Post x Q) (rest : ∀ a, Q a → Post (f a) R) : Post (x >>= f) R := fun b hb => by
  obtain ⟨a, ha, hb⟩ := bind_eq_ok.mp hb
  exact rest a (h a ha) b hb

theorem and (h : Post x Q) (h' : Post x Q') : Post x fun a => Q a ∧ Q' a :=
  fun a ha => ⟨h a ha, h' a ha⟩

/-- Nothing is needed of the first result. -/
theorem bind_any (rest : ∀ a, Post (f a) R) : Post (x >>= f) R :=
  bind (Q := fun _ => True) (fun _ _ => trivial) fun a _ => rest a

end Post

/-! ## Total correctness -/

/-- The computation returns, and the result satisfies `Q`. -/
def Total (x : Except ε α) (Q : α → Prop) : Prop := ∃ a, x = .ok a ∧ Q a

namespace Total

variable {x : Except ε α} {f : α → Except ε β} {a : α} {Q Q' : α → Prop} {R : β → Prop}

theorem ok (h : Q a) : Total (.ok a : Except ε α) Q := ⟨a, rfl, h⟩

theorem mono (h : Total x Q) (weaker : ∀ a, Q a → Q' a) : Total x Q' := by
  obtain ⟨a, ha, hQ⟩ := h
  exact ⟨a, ha, weaker a hQ⟩

theorem bind (h : Total x Q) (rest : ∀ a, Q a → Total (f a) R) : Total (x >>= f) R := by
  obtain ⟨a, ha, hQ⟩ := h
  obtain ⟨b, hb, hR⟩ := rest a hQ
  exact ⟨b, bind_eq_ok.mpr ⟨a, ha, hb⟩, hR⟩

/-- The first computation returns and the rest fails. -/
theorem bind_error {e : ε} (h : Total x Q) (rest : ∀ a, Q a → f a = .error e) :
    (x >>= f) = .error e := by
  obtain ⟨a, rfl, hQ⟩ := h
  exact rest a hQ

theorem post (h : Total x Q) : Post x Q := by
  obtain ⟨a, ha, hQ⟩ := h
  rintro b hb
  cases ha.symm.trans hb
  exact hQ

theorem and_post (h : Total x Q) (h' : Post x Q') : Total x fun a => Q a ∧ Q' a := by
  obtain ⟨a, ha, hQ⟩ := h
  exact ⟨a, ha, hQ, h' a ha⟩

end Total

/-! ## Correctness up to some errors -/

/-- The computation returns and the result satisfies `Q`, or it fails with an error in `E`. -/
def Within (x : Except ε α) (Q : α → Prop) (E : ε → Prop) : Prop :=
  (∃ a, x = .ok a ∧ Q a) ∨ ∃ e, x = .error e ∧ E e

namespace Within

variable {x : Except ε α} {f : α → Except ε β} {a : α} {e : ε} {Q Q' : α → Prop} {R : β → Prop}
  {E : ε → Prop}

theorem ok (h : Q a) : Within (.ok a : Except ε α) Q E := .inl ⟨a, rfl, h⟩

theorem of_total (h : Total x Q) : Within x Q E := .inl h

theorem mono (h : Within x Q E) (weaker : ∀ a, Q a → Q' a) : Within x Q' E := by
  obtain ⟨a, ha, hQ⟩ | herror := h
  · exact .inl ⟨a, ha, weaker a hQ⟩
  · exact .inr herror

theorem bind (h : Within x Q E) (rest : ∀ a, Q a → Within (f a) R E) : Within (x >>= f) R E := by
  obtain ⟨a, rfl, hQ⟩ | ⟨e, rfl, hE⟩ := h
  · exact rest a hQ
  · exact .inr ⟨e, rfl, hE⟩

theorem mono_error {E' : ε → Prop} (h : Within x Q E) (weaker : ∀ e, E e → E' e) :
    Within x Q E' := by
  obtain hok | ⟨e, he, hE⟩ := h
  · exact .inl hok
  · exact .inr ⟨e, he, weaker e hE⟩

theorem post (h : Within x Q E) : Post x Q := by
  rintro a rfl
  obtain ⟨b, hb, hQ⟩ | ⟨e, he, _⟩ := h
  · cases hb
    exact hQ
  · cases he

theorem and_post (h : Within x Q E) (h' : Post x Q') : Within x (fun a => Q a ∧ Q' a) E := by
  obtain ⟨a, ha, hQ⟩ | herror := h
  · exact .inl ⟨a, ha, hQ, h' a ha⟩
  · exact .inr herror

/-- Without errors it is total correctness. -/
theorem total (h : Within x Q fun _ => False) : Total x Q := by
  obtain h | ⟨_, _, hfalse⟩ := h
  · exact h
  · exact hfalse.elim

theorem error_of_eq (h : Within x Q E) (hx : x = .error e) : E e := by
  subst hx
  obtain ⟨a, ha, _⟩ | ⟨e', he', hE⟩ := h
  · cases ha
  · cases he'
    exact hE

end Within

/-! ## Two computations -/

variable {γ δ : Type v}

/-- Whenever both computations return, the results are related. -/
def Agree (R : α → γ → Prop) (x : Except ε α) (y : Except ε γ) : Prop :=
  ∀ a c, x = .ok a → y = .ok c → R a c

namespace Agree

variable {x : Except ε α} {y : Except ε γ} {R R' : α → γ → Prop} {S : β → δ → Prop}
  {f : α → Except ε β} {g : γ → Except ε δ} {a : α} {c : γ} {e : ε}

theorem ok (h : R a c) : Agree R (.ok a : Except ε α) (.ok c) := by
  rintro _ _ ⟨⟩ ⟨⟩
  exact h

theorem error_left : Agree R (.error e) y := fun _ _ hx => nomatch hx

theorem error_right : Agree R x (.error e) := fun _ _ _ hy => nomatch hy

theorem mono (h : Agree R x y) (weaker : ∀ a c, R a c → R' a c) : Agree R' x y :=
  fun a c hx hy => weaker a c (h a c hx hy)

theorem bind (h : Agree R x y) (rest : ∀ a c, R a c → Agree S (f a) (g c)) :
    Agree S (x >>= f) (y >>= g) := by
  intro b d hx hy
  obtain ⟨a, ha, hb⟩ := bind_eq_ok.mp hx
  obtain ⟨c, hc, hd⟩ := bind_eq_ok.mp hy
  exact rest a c (h a c ha hc) b d hb hd

/-- What is known of each computation alone. -/
theorem of_post {Q : α → Prop} {Q' : γ → Prop} (hx : Post x Q) (hy : Post y Q') :
    Agree (fun a c => Q a ∧ Q' c) x y := fun a c ha hc => ⟨hx a ha, hy c hc⟩

end Agree

/-- Both computations return, with related results, or both fail, in the same way. -/
inductive Lockstep (R : α → γ → Prop) : Except ε α → Except ε γ → Prop where
  | ok {a : α} {c : γ} : R a c → Lockstep R (.ok a) (.ok c)
  | error (e : ε) : Lockstep R (.error e) (.error e)

namespace Lockstep

variable {x : Except ε α} {y : Except ε γ} {R : α → γ → Prop} {S : β → δ → Prop}
  {f : α → Except ε β} {g : γ → Except ε δ} {a : α} {c : γ} {e : ε}

theorem bind (h : Lockstep R x y) (rest : ∀ a c, R a c → Lockstep S (f a) (g c)) :
    Lockstep S (x >>= f) (y >>= g) := by
  cases h with
  | ok h => exact rest _ _ h
  | error e => exact .error e

/-- The second computation goes on. -/
theorem bind_rest {R : α → γ → Prop} {S : α → δ → Prop} (h : Lockstep R x y)
    (rest : ∀ a c, R a c → Lockstep S (.ok a) (g c)) : Lockstep S x (y >>= g) := by
  cases h with
  | ok h => exact rest _ _ h
  | error e => exact .error e

theorem and_post {Q : α → Prop} (h : Lockstep R x y) (hpost : Post x Q) :
    Lockstep (fun a c => R a c ∧ Q a) x y := by
  cases h with
  | ok h => exact .ok ⟨h, hpost _ rfl⟩
  | error e => exact .error e

/-- The second computation does something first, which succeeds. -/
theorem bind_right {R : β → δ → Prop} {z : Except ε β} {Q : γ → Prop} (h : Total y Q)
    (rest : ∀ c, Q c → Lockstep R z (g c)) : Lockstep R z (y >>= g) := by
  obtain ⟨c, rfl, hQ⟩ := h
  exact rest c hQ

/-- A computation next to itself. -/
theorem same {Q : α → Prop} (h : Post x Q) : Lockstep (fun a b => a = b ∧ Q a) x x := by
  cases x with
  | ok a => exact .ok ⟨rfl, h a rfl⟩
  | error e => exact .error e

theorem error_iff (h : Lockstep R x y) : x = .error e ↔ y = .error e := by
  cases h with
  | ok _ => exact ⟨fun h => (by cases h), fun h => (by cases h)⟩
  | error e' => exact ⟨fun h => (by cases h; rfl), fun h => (by cases h; rfl)⟩

end Lockstep

end Except
