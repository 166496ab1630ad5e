import Mathlib.Data.List.Forall2
import Mathlib.Tactic.Basic

/-!
# Computations that succeed

Inversion of computations that may fail: what a result says about the parts; and two
computations side by side, one of which fails exactly if the other does, with the same error
or with any.
-/

namespace DocumentQuery

variable {ε α β : Type}

@[simp] theorem ok_bind (a : α) (f : α → Except ε β) : (Except.ok a >>= f) = f a := rfl

@[simp] theorem error_bind (e : ε) (f : α → Except ε β) : (Except.error e >>= f) = .error e := rfl

theorem bind_eq_ok {x : Except ε α} {f : α → Except ε β} {b : β} :
    (x >>= f) = .ok b ↔ ∃ a, x = .ok a ∧ f a = .ok b := by
  cases x <;> simp [bind, Except.bind]

theorem bind_eq_error {x : Except ε α} {f : α → Except ε β} {e : ε} :
    (x >>= f) = .error e ↔ x = .error e ∨ ∃ a, x = .ok a ∧ f a = .error e := by
  cases x <;> simp [bind, Except.bind]

theorem map_eq_ok {x : Except ε α} {f : α → β} {b : β} :
    x.map f = .ok b ↔ ∃ a, x = .ok a ∧ f a = b := by
  cases x <;> simp [Except.map]

theorem map_eq_error {x : Except ε α} {f : α → β} {e : ε} :
    x.map f = .error e ↔ x = .error e := by
  cases x <;> simp [Except.map]

theorem exists_map_eq_ok {x : Except ε α} (f : α → β) :
    (∃ b, x.map f = .ok b) ↔ ∃ a, x = .ok a := by
  cases x <;> simp [Except.map]

theorem mapError_eq_ok {ε' : Type} {x : Except ε α} {f : ε → ε'} {a : α} :
    x.mapError f = .ok a ↔ x = .ok a := by
  cases x with
  | error e => exact ⟨nofun, nofun⟩
  | ok a' =>
    constructor
    · intro h
      exact congrArg Except.ok (Except.ok.inj h)
    · intro h
      exact congrArg Except.ok (Except.ok.inj h)

theorem mapError_ne_error {ε' : Type} {x : Except ε α} {f : ε → ε'} {e' : ε'}
    (h : ∀ e, f e ≠ e') : x.mapError f ≠ .error e' := by
  cases x with
  | error e => exact fun hEq => h e (Except.error.inj hEq)
  | ok a => exact nofun

/-! ## Lists -/

theorem mapM_eq_ok_map {f : α → Except ε β} {g : α → β} {xs : List α}
    (h : ∀ x ∈ xs, f x = .ok (g x)) : xs.mapM f = .ok (xs.map g) := by
  induction xs with
  | nil => rfl
  | cons x xs ih =>
    rw [List.forall_mem_cons] at h
    rw [List.mapM_cons, h.1, ok_bind, ih h.2]
    rfl

/-- What a computation over a list gives, it gives for one of the items. -/
theorem exists_of_mapM_ok {f : α → Except ε β} {xs : List α} {ys : List β}
    (h : xs.mapM f = .ok ys) : ∀ y ∈ ys, ∃ x ∈ xs, f x = .ok y := by
  induction xs generalizing ys with
  | nil =>
    cases h
    exact nofun
  | cons x xs ih =>
    rw [List.mapM_cons, bind_eq_ok] at h
    obtain ⟨first, hFirst, h⟩ := h
    obtain ⟨rest, hRest, h⟩ := bind_eq_ok.mp h
    obtain rfl := Except.ok.inj h
    refine List.forall_mem_cons.mpr ⟨⟨x, List.mem_cons_self, hFirst⟩, fun y hy => ?_⟩
    obtain ⟨x', hx', hy⟩ := ih hRest y hy
    exact ⟨x', List.mem_cons_of_mem _ hx', hy⟩

/-- A computation over a list fails as that for one of its items does. -/
theorem exists_of_mapM_error {f : α → Except ε β} {xs : List α} {e : ε}
    (h : xs.mapM f = .error e) : ∃ x ∈ xs, f x = .error e := by
  induction xs with
  | nil => cases h
  | cons x xs ih =>
    rw [List.mapM_cons] at h
    cases hFirst : f x with
    | error e' =>
      rw [hFirst] at h
      cases h
      exact ⟨x, List.mem_cons_self, hFirst⟩
    | ok y =>
      rw [hFirst, ok_bind] at h
      cases hRest : xs.mapM f with
      | error e' =>
        rw [hRest] at h
        cases h
        obtain ⟨x', hMem, hFails⟩ := ih hRest
        exact ⟨x', List.mem_cons_of_mem _ hMem, hFails⟩
      | ok ys =>
        rw [hRest] at h
        cases h

/-- Where the computation for an item fails, that over the list does. -/
theorem exists_mapM_error {f : α → Except ε β} {xs : List α} {x : α} (hMem : x ∈ xs) {e : ε}
    (h : f x = .error e) : ∃ e', xs.mapM f = .error e' := by
  cases hAll : xs.mapM f with
  | error e' => exact ⟨e', rfl⟩
  | ok ys =>
    exfalso
    induction xs generalizing ys with
    | nil => cases hMem
    | cons x' xs ih =>
      rw [List.mapM_cons, bind_eq_ok] at hAll
      obtain ⟨y, hFirst, hAll⟩ := hAll
      obtain ⟨ys', hRest, -⟩ := bind_eq_ok.mp hAll
      rcases List.mem_cons.mp hMem with rfl | hMem
      · rw [h] at hFirst
        cases hFirst
      · exact ih hMem ys' hRest

/-! ## Two computations side by side -/

/-- Both computations fail with the same error, or both succeed with related results. -/
inductive Matches (R : α → β → Prop) : Except ε α → Except ε β → Prop where
  | error (e : ε) : Matches R (.error e) (.error e)
  | ok {a : α} {b : β} : R a b → Matches R (.ok a) (.ok b)

namespace Matches

variable {α' β' : Type} {R : α → β → Prop} {S : α' → β' → Prop} {x : Except ε α} {y : Except ε β}

theorem refl {R : α → α → Prop} (hR : ∀ a, R a a) (x : Except ε α) : Matches R x x := by
  cases x with
  | error e => exact .error e
  | ok a => exact .ok (hR a)

theorem cases (h : Matches R x y) :
    (∃ e, x = .error e ∧ y = .error e) ∨ ∃ a b, x = .ok a ∧ y = .ok b ∧ R a b := by
  cases h with
  | error e => exact .inl ⟨e, rfl, rfl⟩
  | ok hab => exact .inr ⟨_, _, rfl, rfl, hab⟩

theorem bind (h : Matches R x y) {f : α → Except ε α'} {g : β → Except ε β'}
    (hfg : ∀ a b, R a b → Matches S (f a) (g b)) : Matches S (x >>= f) (y >>= g) := by
  cases h with
  | error e => exact .error e
  | ok hab => exact hfg _ _ hab

theorem map (h : Matches R x y) {f : α → α'} {g : β → β'} (hfg : ∀ a b, R a b → S (f a) (g b)) :
    Matches S (x.map f) (y.map g) := by
  cases h with
  | error e => exact .error e
  | ok hab => exact .ok (hfg _ _ hab)

end Matches

/-- Both computations fail, be it with different errors, or both succeed with related
results. -/
inductive Concurs (R : α → β → Prop) : Except ε α → Except ε β → Prop where
  | error (e e' : ε) : Concurs R (.error e) (.error e')
  | ok {a : α} {b : β} : R a b → Concurs R (.ok a) (.ok b)

namespace Concurs

variable {α' β' : Type} {R : α → β → Prop} {S : α' → β' → Prop} {x : Except ε α} {y : Except ε β}

theorem of_results (h : (∃ a, x = .ok a) ↔ ∃ b, y = .ok b)
    (hR : ∀ a b, x = .ok a → y = .ok b → R a b) : Concurs R x y := by
  cases x with
  | error e =>
    cases y with
    | error e' => exact .error e e'
    | ok b => cases (h.mpr ⟨b, rfl⟩).choose_spec
  | ok a =>
    cases y with
    | error e' => cases (h.mp ⟨a, rfl⟩).choose_spec
    | ok b => exact .ok (hR a b rfl rfl)

/-- Two failures need not be the same. -/
theorem of_failures (hx : ¬ ∃ a, x = .ok a) (hy : ¬ ∃ b, y = .ok b) : Concurs R x y :=
  of_results (iff_of_false hx hy) fun a _ ha => absurd ⟨a, ha⟩ hx

theorem of_iff {y : Except ε α} (h : ∀ a, x = .ok a ↔ y = .ok a) : Concurs Eq x y :=
  .of_results (exists_congr h) fun a _ hx hy => Except.ok.inj (((h a).mp hx).symm.trans hy)

theorem refl {R : α → α → Prop} {x : Except ε α} (h : ∀ a, x = .ok a → R a a) : Concurs R x x :=
  .of_results .rfl fun a _ hx hy => Except.ok.inj (hx.symm.trans hy) ▸ h a hx

theorem imp {R' : α → β → Prop} (h : Concurs R x y) (hR : ∀ a b, R a b → R' a b) :
    Concurs R' x y := by
  cases h with
  | error e e' => exact .error e e'
  | ok hab => exact .ok (hR _ _ hab)

theorem exists_left (h : Concurs R x y) {b : β} (hy : y = .ok b) : ∃ a, x = .ok a ∧ R a b := by
  subst hy
  cases h with
  | ok hab => exact ⟨_, rfl, hab⟩

theorem exists_right (h : Concurs R x y) {a : α} (hx : x = .ok a) : ∃ b, y = .ok b ∧ R a b := by
  subst hx
  cases h with
  | ok hab => exact ⟨_, rfl, hab⟩

theorem exists_iff (h : Concurs R x y) : (∃ a, x = .ok a) ↔ ∃ b, y = .ok b := by
  cases h <;> simp

theorem eq_ok_iff {y : Except ε α} (h : Concurs Eq x y) {a : α} : x = .ok a ↔ y = .ok a := by
  cases h with
  | error e e' => simp
  | ok hab => rw [hab]

theorem bind (h : Concurs R x y) {f : α → Except ε α'} {g : β → Except ε β'}
    (hfg : ∀ a b, R a b → Concurs S (f a) (g b)) : Concurs S (x >>= f) (y >>= g) := by
  cases h with
  | error e e' => exact .error e e'
  | ok hab => exact hfg _ _ hab

theorem bind_same {x : Except ε α} {f : α → Except ε α'} {g : α → Except ε β'}
    (hfg : ∀ a, Concurs S (f a) (g a)) : Concurs S (x >>= f) (x >>= g) :=
  (refl fun _ _ => rfl : Concurs Eq x x).bind fun a _ hEq => hEq ▸ hfg a

theorem map (h : Concurs R x y) {f : α → α'} {g : β → β'} (hfg : ∀ a b, R a b → S (f a) (g b)) :
    Concurs S (x.map f) (y.map g) := by
  cases h with
  | error e e' => exact .error e e'
  | ok hab => exact .ok (hfg _ _ hab)

theorem mapM {T : α' → β' → Prop} {f : α' → Except ε α} {g : β' → Except ε β} {xs : List α'}
    {ys : List β'} (h : List.Forall₂ T xs ys) (hfg : ∀ a b, T a b → Concurs R (f a) (g b)) :
    Concurs (List.Forall₂ R) (xs.mapM f) (ys.mapM g) := by
  induction h with
  | nil => exact .ok .nil
  | cons hFirst _ ih =>
    rw [List.mapM_cons, List.mapM_cons]
    exact (hfg _ _ hFirst).bind fun _ _ hab => ih.bind fun _ _ hRest => .ok (.cons hab hRest)

end Concurs

end DocumentQuery
