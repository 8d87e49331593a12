import Mathlib.Data.List.Forall2

/-!
# Outcomes of steps that may fail

* `subscript` is the lookup of a list that raises.
* `Ends x E P` says what both outcomes of a computation satisfy: its error `E`, its result `P`.
* `Mirrors raise R x y` says that `y` does what `x` does: it fails where `x` fails, with the
  error in its own words, and otherwise their results are related by `R`.

Both are followed through a computation by one rule for each way to go on.
-/

namespace RemoteTerm.Foundation

open List

variable {ε ε' α β γ δ : Type} {x : Except ε α}

theorem bind_ok {a : α} (h : x = .ok a) (f : α → Except ε β) : (x >>= f) = f a := by
  rw [h]
  rfl

variable {f : α → Except ε β}

theorem bind_eq_ok_iff {b : β} : (x >>= f) = .ok b ↔ ∃ a, x = .ok a ∧ f a = .ok b := by
  cases x <;> simp [bind, Except.bind]

theorem bind_eq_ok {b : β} (h : (x >>= f) = .ok b) : ∃ a, x = .ok a ∧ f a = .ok b :=
  bind_eq_ok_iff.mp h

variable {l : List α} {out : List β}

theorem mapM_ok (h : l.mapM f = .ok out) : List.Forall₂ (fun a b => f a = .ok b) l out := by
  induction l generalizing out with
  | nil =>
    rw [mapM_nil] at h
    cases h
    exact .nil
  | cons a l ih =>
    rw [mapM_cons] at h
    obtain ⟨b, hHead, h⟩ := bind_eq_ok h
    obtain ⟨bs, hTail, h⟩ := bind_eq_ok h
    cases h
    exact .cons hHead (ih hTail)

theorem mapM_isOk (h : ∀ a ∈ l, ∃ b, f a = .ok b) : ∃ out, l.mapM f = .ok out := by
  induction l with
  | nil => exact ⟨[], mapM_nil⟩
  | cons a l ih =>
    rw [forall_mem_cons] at h
    obtain ⟨⟨b, hHead⟩, h⟩ := h
    obtain ⟨bs, hTail⟩ := ih h
    refine ⟨b :: bs, ?_⟩
    rw [mapM_cons, bind_ok hHead, bind_ok hTail]
    rfl

theorem mapM_zipIdx_ok {f : α × Nat → Except ε β} (h : l.zipIdx.mapM f = .ok out) :
    out.length = l.length ∧
      ∀ i b, out[i]? = some b → ∃ a, l[i]? = some a ∧ f (a, i) = .ok b := by
  have hAll := mapM_ok h
  have hLength : out.length = l.length := by rw [← hAll.length_eq, length_zipIdx]
  refine ⟨hLength, fun i b hb => ?_⟩
  obtain ⟨hi, rfl⟩ := List.getElem?_eq_some_iff.mp hb
  have hi' : i < l.length := hLength ▸ hi
  have hZip : i < l.zipIdx.length := by rwa [length_zipIdx]
  have hAt := hAll.get hZip hi
  simp only [get_eq_getElem, getElem_zipIdx, Nat.zero_add] at hAt
  exact ⟨l[i], getElem?_eq_getElem hi', hAt⟩

/-! ## Subscripts -/

/-- An element by its place. -/
def subscript (missing : ε) (l : List α) (i : Nat) : Except ε α :=
  match l[i]? with
  | none => .error missing
  | some a => .ok a

theorem subscript_of_lt (missing : ε) {i : Nat} (h : i < l.length) :
    subscript missing l i = .ok l[i] := by
  unfold subscript
  rw [getElem?_eq_getElem h]

/-! ## Both outcomes -/

def Ends (x : Except ε α) (E : ε → Prop) (P : α → Prop) : Prop :=
  match x with
  | .ok a => P a
  | .error e => E e

section Ends

variable {x : Except ε α} {E : ε → Prop} {P P' : α → Prop}

theorem Ends.bind {f : α → Except ε β} {Q : β → Prop} (hx : Ends x E P)
    (hf : ∀ a, P a → Ends (f a) E Q) : Ends (x >>= f) E Q := by
  cases x with
  | error e => exact hx
  | ok a => exact hf a hx

theorem Ends.ite {c : Prop} [Decidable c] {y : Except ε α} (h : c → Ends x E P)
    (h' : ¬c → Ends y E P) : Ends (if c then x else y) E P := by
  by_cases hc : c
  · rw [if_pos hc]
    exact h hc
  · rw [if_neg hc]
    exact h' hc

theorem Ends.of_true (x : Except ε α) : Ends x (fun _ => True) fun _ => True := by
  cases x with
  | error e => exact trivial
  | ok a => exact trivial

theorem Ends.mono (h : Ends x E P) (hP : ∀ a, P a → P' a) : Ends x E P' := by
  cases x with
  | error e => exact h
  | ok a => exact hP a h

theorem Ends.mapError {raise : ε → ε'} {E' : ε' → Prop} (h : Ends x E P)
    (hE : ∀ e, E e → E' (raise e)) : Ends (x.mapError raise) E' P := by
  cases x with
  | error e => exact hE e h
  | ok a => exact h

end Ends

/-! ## Two computations side by side -/

def Mirrors (raise : ε → ε') (R : α → β → Prop) (x : Except ε α) (y : Except ε' β) : Prop :=
  match x, y with
  | .ok a, .ok b => R a b
  | .error e, .error e' => e' = raise e
  | _, _ => False

section Mirrors

variable {raise : ε → ε'} {R : α → β → Prop} {x : Except ε α} {y : Except ε' β}

theorem Mirrors.cases (h : Mirrors raise R x y) :
    (∃ e, x = .error e ∧ y = .error (raise e)) ∨ ∃ a b, x = .ok a ∧ y = .ok b ∧ R a b := by
  cases x with
  | error e =>
    cases y with
    | error e' => exact .inl ⟨e, rfl, congrArg Except.error h⟩
    | ok b => exact h.elim
  | ok a =>
    cases y with
    | error e' => exact h.elim
    | ok b => exact .inr ⟨a, b, rfl, rfl, h⟩

/-- The first result is known when the rest is compared. -/
theorem Mirrors.bind {f : α → Except ε γ} {g : β → Except ε' δ} {S : γ → δ → Prop}
    (h : Mirrors raise R x y) (hf : ∀ a b, x = .ok a → R a b → Mirrors raise S (f a) (g b)) :
    Mirrors raise S (x >>= f) (y >>= g) := by
  obtain ⟨e, rfl, rfl⟩ | ⟨a, b, rfl, rfl, hR⟩ := h.cases
  · rfl
  · exact hf a b rfl hR

theorem Mirrors.error {e : ε} {e' : ε'} (h : e' = raise e) :
    Mirrors raise R (.error e) (.error e') := h

theorem Mirrors.ite {c : Prop} [Decidable c] {x' : Except ε α} {y' : Except ε' β}
    (h : c → Mirrors raise R x y) (h' : ¬c → Mirrors raise R x' y') :
    Mirrors raise R (if c then x else x') (if c then y else y') := by
  by_cases hc : c
  · rw [if_pos hc, if_pos hc]
    exact h hc
  · rw [if_neg hc, if_neg hc]
    exact h' hc

theorem Mirrors.mapError (x : Except ε α) (raise : ε → ε') :
    Mirrors raise (· = ·) x (x.mapError raise) := by
  cases x with
  | error e => rfl
  | ok a => rfl

variable {Q : β → Prop}

theorem Mirrors.ends {E : ε → Prop} {E' : ε' → Prop} {P : α → Prop} (h : Mirrors raise R x y)
    (hx : Ends x E P)
    (hE : ∀ e, E e → E' (raise e)) (hP : ∀ a b, P a → R a b → Q b) : Ends y E' Q := by
  obtain ⟨e, rfl, rfl⟩ | ⟨a, b, rfl, rfl, hR⟩ := h.cases
  · exact hE e hx
  · exact hP a b hx hR

theorem Mirrors.eq_mapError {y : Except ε' α} (h : Mirrors raise (· = ·) x y) :
    y = x.mapError raise := by
  obtain ⟨e, rfl, rfl⟩ | ⟨a, b, rfl, rfl, rfl⟩ := h.cases
  · rfl
  · rfl

end Mirrors

end RemoteTerm.Foundation
