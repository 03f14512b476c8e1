import Mathlib

/-!
# Steps that may fail

How a computation of several steps came to its result, read back from the result.
-/

namespace VectorMachine

universe u v

variable {ε : Type u} {α β : Type v}

@[simp] theorem ok_bind (a : α) (g : α -> Except ε β) : (Except.ok a >>= g) = g a := rfl

@[simp] theorem error_bind (e : ε) (g : α -> Except ε β) :
    (Except.error e >>= g) = .error e := rfl

theorem exists_of_bind_eq_ok {x : Except ε α} {g : α -> Except ε β} {b : β}
    (h : x >>= g = .ok b) : exists a, x = .ok a ∧ g a = .ok b := by
  cases x with
  | error e => cases h
  | ok a => exact ⟨a, rfl, h⟩

theorem cases_of_bind_eq_error {x : Except ε α} {g : α -> Except ε β} {e : ε}
    (h : x >>= g = .error e) : x = .error e ∨ exists a, x = .ok a ∧ g a = .error e := by
  cases x with
  | error e' =>
      cases h
      exact Or.inl rfl
  | ok a => exact Or.inr ⟨a, rfl, h⟩

theorem eq_ok_of_toOption {x : Except ε α} {a : α} (h : x.toOption = some a) : x = .ok a := by
  cases x with
  | error e => cases h
  | ok b =>
      cases h
      rfl

theorem forall₂_of_mapM_eq_ok {g : α -> Except ε β} {xs : List α} {ys : List β}
    (h : xs.mapM g = .ok ys) : List.Forall₂ (fun x y => g x = .ok y) xs ys := by
  induction xs generalizing ys with
  | nil =>
      rw [List.mapM_nil] at h
      cases h
      exact List.Forall₂.nil
  | cons x xs ih =>
      rw [List.mapM_cons] at h
      rcases exists_of_bind_eq_ok h with ⟨y, hy, hrest⟩
      rcases exists_of_bind_eq_ok hrest with ⟨others, hothers, hdone⟩
      cases hdone
      exact List.Forall₂.cons hy (ih hothers)

theorem mapM_eq_ok_of_forall₂ {g : α -> Except ε β} {xs : List α} {ys : List β}
    (h : List.Forall₂ (fun x y => g x = .ok y) xs ys) : xs.mapM g = .ok ys := by
  induction h with
  | nil => rfl
  | cons hx _ ih =>
      rw [List.mapM_cons, hx, ih]
      rfl

theorem exists_of_mapM_eq_error {g : α -> Except ε β} {xs : List α} {e : ε}
    (h : xs.mapM g = .error e) : exists x, x ∈ xs ∧ g x = .error e := by
  induction xs with
  | nil => cases h
  | cons x xs ih =>
      rw [List.mapM_cons] at h
      rcases cases_of_bind_eq_error h with hx | ⟨_, _, hrest⟩
      · exact ⟨x, List.mem_cons_self, hx⟩
      · rcases cases_of_bind_eq_error hrest with hxs | ⟨_, _, hdone⟩
        · rcases ih hxs with ⟨y, hy, herror⟩
          exact ⟨y, List.mem_cons_of_mem x hy, herror⟩
        · cases hdone

theorem find?_zipIdx_eq_none_iff {p : α -> Bool} {xs : List α} :
    (xs.zipIdx.find? fun entry => p entry.1) = none ↔ forall x, x ∈ xs -> p x = false := by
  rw [List.find?_eq_none]
  constructor
  · intro h x hx
    rcases List.mem_iff_getElem?.mp hx with ⟨k, hk⟩
    exact Bool.eq_false_iff.mpr (h (x, k) (List.mem_zipIdx_iff_getElem?.mpr hk))
  · intro h entry hentry
    exact Bool.eq_false_iff.mp (h entry.1 (List.fst_mem_of_mem_zipIdx hentry))

theorem exists_of_mem_right {α β : Type v} {r : α -> β -> Prop} {xs : List α} {ys : List β}
    (h : List.Forall₂ r xs ys) {y : β} (hy : y ∈ ys) : exists x, x ∈ xs ∧ r x y := by
  induction h with
  | nil => cases hy
  | @cons x z xs ys hx _ ih =>
      rcases List.mem_cons.mp hy with rfl | hy
      · exact ⟨x, List.mem_cons_self, hx⟩
      · rcases ih hy with ⟨w, hw, hr⟩
        exact ⟨w, List.mem_cons_of_mem x hw, hr⟩

theorem exists_of_mem_left {α β : Type v} {r : α -> β -> Prop} {xs : List α} {ys : List β}
    (h : List.Forall₂ r xs ys) {x : α} (hx : x ∈ xs) : exists y, y ∈ ys ∧ r x y := by
  have hflip : List.Forall₂ (fun y x => r x y) ys xs := h.flip
  exact exists_of_mem_right hflip hx

theorem mapM_map_eq_some {α β : Type v} {read : β -> Option α} {emit : α -> β}
    (h : forall x, read (emit x) = some x) (xs : List α) :
    (xs.map emit).mapM read = some xs := by
  induction xs with
  | nil => rfl
  | cons x xs ih =>
      rw [List.map_cons, List.mapM_cons, h, ih]
      rfl

end VectorMachine
