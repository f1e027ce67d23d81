import CqrsSaga.Store.Table
import Mathlib.Data.List.Forall2

/-!
# Tables changed row by row

A sweep over a table changes some of its rows, one by one, and leaves the others as they are.
What it has done so far is described row by row: which rows have changed, and how.

## Main definitions

* `Table.Changed P R` — the rows in `P` have changed as `R` says, and no others.

## Main results

* `Table.Changed.put` — one more row is changed.
* `Table.Changed.find?_eq_some`, `Table.Changed.find?_eq_none` — what a query finds meanwhile.
* `Table.Changed.iff` — **which rows have changed can be read off the rows.**
-/

namespace CqrsSaga

namespace Table

variable {ρ κ ι : Type} {pk : ρ → κ} {uk : ρ → Option ι} {P P' : ρ → Prop} {R : ρ → ρ → Prop}
  {xs ys : List ρ} {x r : ρ}

/-- Row by row, those for which `P` holds have changed as `R` says, and the others have not. -/
def Changed (P : ρ → Prop) (R : ρ → ρ → Prop) : List ρ → List ρ → Prop :=
  List.Forall₂ fun x y => P x ∧ R x y ∨ ¬P x ∧ y = x

/-- A column no change touches. -/
theorem column_eq {β : Type} {g : ρ → β} {y : ρ} (hg : ∀ x y, R x y → g y = g x)
    (h : P x ∧ R x y ∨ ¬P x ∧ y = x) : g y = g x := by
  rcases h with ⟨-, hR⟩ | ⟨-, rfl⟩
  · exact hg x y hR
  · rfl

theorem Changed.of_none (hP : ∀ x ∈ xs, ¬P x) : Changed P R xs xs := by
  induction xs with
  | nil => exact .nil
  | cons x xs ih =>
    exact .cons (Or.inr ⟨hP x List.mem_cons_self, rfl⟩)
      (ih fun x hx => hP x (List.mem_cons_of_mem _ hx))

theorem Changed.congr (h : Changed P R xs ys) (hP : ∀ x ∈ xs, P x ↔ P' x) : Changed P' R xs ys := by
  induction h with
  | nil => exact .nil
  | cons hxy _ ih =>
    refine .cons ?_ (ih fun x hx => hP x (List.mem_cons_of_mem _ hx))
    rw [← hP _ List.mem_cons_self]
    exact hxy

/-- A row that has not changed is there. -/
theorem Changed.mem (h : Changed P R xs ys) (hx : x ∈ xs) (hP : ¬P x) : x ∈ ys := by
  induction h with
  | nil => exact absurd hx List.not_mem_nil
  | cons hxy _ ih =>
    rcases List.mem_cons.mp hx with rfl | hx
    · rcases hxy with ⟨hP', -⟩ | ⟨-, rfl⟩
      · exact absurd hP' hP
      · exact List.mem_cons_self
    · exact List.mem_cons_of_mem _ (ih hx)

/-! ### One more row -/

theorem save_rows [DecidableEq κ] [DecidableEq ι] {t t' : Table pk uk} (h : t.save r = some t') :
    t'.rows = put pk r t.rows := by
  unfold save at h
  split at h
  · cases h
  · obtain rfl := Option.some.inj h
    rfl

/-- A row of another key does not change when `o` does. -/
theorem changed_or {o y : ρ} (hne : pk x ≠ pk o) (h : P x ∧ R x y ∨ ¬P x ∧ y = x) :
    (P x ∨ x = o) ∧ R x y ∨ ¬(P x ∨ x = o) ∧ y = x := by
  rcases h with ⟨hP, hR⟩ | ⟨hP, rfl⟩
  · exact Or.inl ⟨Or.inl hP, hR⟩
  · refine Or.inr ⟨?_, rfl⟩
    rintro (hP' | rfl)
    · exact hP hP'
    · exact hne rfl

/-- **One more row is changed**, in place. -/
theorem Changed.put [DecidableEq κ] (h : Changed P R xs ys) (hkey : ∀ x y, R x y → pk y = pk x)
    (hpk : xs.Pairwise fun x y => pk x ≠ pk y) {o : ρ} (ho : o ∈ xs) (hP : ¬P o) (hR : R o r) :
    Changed (fun x => P x ∨ x = o) R xs (Table.put pk r ys) := by
  induction h with
  | nil => exact absurd ho List.not_mem_nil
  | @cons x y xs ys hxy hrest ih =>
    obtain ⟨hx, hxs⟩ := List.pairwise_cons.mp hpk
    have hyx : pk y = pk x := column_eq hkey hxy
    rw [Table.put]
    rcases List.mem_cons.mp ho with rfl | ho
    · rw [if_pos (hyx.trans (hkey o r hR).symm)]
      refine .cons (Or.inl ⟨Or.inr rfl, hR⟩) ?_
      refine Changed.congr (P := P) hrest fun z hz => (or_iff_left ?_).symm
      rintro rfl
      exact hx z hz rfl
    · have hne : pk x ≠ pk o := hx o ho
      rw [if_neg fun heq => hne (hyx.symm.trans (heq.trans (hkey o r hR)))]
      exact .cons (changed_or hne hxy) (ih hxs ho)

/-! ### Queries -/

variable {f : ρ → Bool}

/-- A query that does not see the changes finds a row that has not changed. -/
theorem Changed.find?_eq_some (h : Changed P R xs ys) (hf : ∀ x y, R x y → f y = f x)
    (hx : xs.find? f = some x) (hP : ¬P x) : ys.find? f = some x := by
  induction h with
  | nil => cases hx
  | @cons a b as bs hab _ ih =>
    rw [List.find?_cons] at hx ⊢
    rw [column_eq hf hab]
    cases hfa : f a with
    | true =>
      rw [hfa] at hx
      obtain rfl := Option.some.inj hx
      rcases hab with ⟨hP', -⟩ | ⟨-, rfl⟩
      · exact absurd hP' hP
      · rfl
    | false =>
      rw [hfa] at hx
      exact ih hx

/-- A query that does not see the changes finds nothing where there was nothing. -/
theorem Changed.find?_eq_none (h : Changed P R xs ys) (hf : ∀ x y, R x y → f y = f x)
    (hx : xs.find? f = none) : ys.find? f = none := by
  induction h with
  | nil => rfl
  | @cons a b as bs hab _ ih =>
    rw [List.find?_cons] at hx ⊢
    rw [column_eq hf hab]
    cases hfa : f a with
    | true =>
      rw [hfa] at hx
      cases hx
    | false =>
      rw [hfa] at hx
      exact ih hx

/-! ### Which rows have changed -/

/-- **Which rows have changed can be read off the rows**, if a change can be seen. -/
theorem Changed.iff (h : Changed P R xs ys) (hR : ∀ x, ¬R x x) :
    Changed P' R xs ys ↔ ∀ x ∈ xs, P x ↔ P' x := by
  refine ⟨fun h' => ?_, h.congr⟩
  induction h with
  | nil => exact fun x hx => absurd hx List.not_mem_nil
  | @cons a b as bs hab _ ih =>
    obtain ⟨hab', hrest⟩ := List.forall₂_cons.mp h'
    intro x hx
    rcases List.mem_cons.mp hx with rfl | hx
    · rcases hab with ⟨hP, hRab⟩ | ⟨hP, rfl⟩
      · rcases hab' with ⟨hP', -⟩ | ⟨-, rfl⟩
        · exact iff_of_true hP hP'
        · exact absurd hRab (hR b)
      · rcases hab' with ⟨-, hRab⟩ | ⟨hP', -⟩
        · exact absurd hRab (hR b)
        · exact iff_of_false hP hP'
    · exact ih hrest x hx

end Table

end CqrsSaga
