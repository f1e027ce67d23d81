import Mathlib.Data.List.Nodup
import Mathlib.Data.Nat.Notation

/-!
# Counting instead of matching

Some items are each to be covered by a key of their own.  Whether every item is covered is a
question of matching items and keys; comparing how many there are of each answers another one, and
this is about how far the two answers agree.

## Main definitions

* `Cover.uncovered`, `Cover.spare` — the items without a key, and the keys no item needs.

## Main results

* `Cover.length_lt_iff` — **there are fewer keys than items exactly if fewer keys are spare than
  items are uncovered.**
* `Cover.spare_eq` — which keys are spare where every key is there once.
-/

namespace CqrsSaga

namespace Cover

variable {κ : Type} [DecidableEq κ] {items keys : List κ}

/-- The items without a key. -/
def uncovered (items keys : List κ) : List κ := items.filter fun x => decide (x ∉ keys)

/-- The items with a key. -/
def covered (items keys : List κ) : List κ := items.filter fun x => decide (x ∈ keys)

/-- The keys that are not needed: those of no item, and of several keys of one item all but the
last. -/
def spare (items : List κ) : List κ → List κ
  | [] => []
  | x :: xs => if x ∈ items ∧ x ∉ xs then spare items xs else x :: spare items xs

theorem uncovered_eq_nil : uncovered items keys = [] ↔ ∀ x ∈ items, x ∈ keys := by
  rw [uncovered, List.filter_eq_nil_iff]
  simp only [decide_eq_true_eq, not_not]

/-- An item is covered or not. -/
theorem covered_add_uncovered :
    (covered items keys).length + (uncovered items keys).length = items.length := by
  unfold covered uncovered
  induction items with
  | nil => rfl
  | cons x items ih =>
    by_cases hx : x ∈ keys
    · rw [List.filter_cons_of_pos (by simpa using hx), List.filter_cons_of_neg (by simpa using hx),
        List.length_cons, List.length_cons]
      omega
    · rw [List.filter_cons_of_neg (by simpa using hx), List.filter_cons_of_pos (by simpa using hx),
        List.length_cons, List.length_cons]
      omega

/-- A further key covers one more item, if the item had none. -/
theorem length_covered_cons (h : items.Nodup) {x : κ} (hx : x ∈ items) (hnew : x ∉ keys) :
    (covered items (x :: keys)).length = (covered items keys).length + 1 := by
  unfold covered
  induction items with
  | nil => exact absurd hx List.not_mem_nil
  | cons y items ih =>
    obtain ⟨hy, h⟩ := List.nodup_cons.mp h
    by_cases hxy : y = x
    · subst hxy
      -- the other items are not the one that is covered now
      have hsame : (items.filter fun z => decide (z ∈ y :: keys)) =
          items.filter fun z => decide (z ∈ keys) := by
        refine List.filter_congr fun z hz => ?_
        have hne : z ≠ y := by
          rintro rfl
          exact hy hz
        simp [hne]
      rw [List.filter_cons_of_pos (by simp), List.filter_cons_of_neg (by simpa using hnew), hsame,
        List.length_cons]
    · have ih := ih h ((List.mem_cons.mp hx).resolve_left (Ne.symm hxy))
      rw [List.filter_cons, List.filter_cons]
      by_cases hk : y ∈ keys
      · rw [if_pos (by simp [hk]), if_pos (by simp [hk]), List.length_cons, List.length_cons, ih]
      · rw [if_neg (by simp [hk, hxy]), if_neg (by simp [hk]), ih]

/-- A key that is not needed covers nothing new. -/
theorem covered_cons_of_spare {x : κ} (h : ¬(x ∈ items ∧ x ∉ keys)) :
    covered items (x :: keys) = covered items keys := by
  unfold covered
  refine List.filter_congr fun z hz => ?_
  rw [decide_eq_decide, List.mem_cons]
  constructor
  · rintro (rfl | hk)
    · by_contra hn
      exact h ⟨hz, hn⟩
    · exact hk
  · exact Or.inr

/-- **Every key covers an item or is spare.** -/
theorem covered_add_spare (h : items.Nodup) :
    (covered items keys).length + (spare items keys).length = keys.length := by
  induction keys with
  | nil => simp [covered, spare]
  | cons x keys ih =>
    rw [spare]
    split
    · next hx =>
      rw [length_covered_cons h hx.1 hx.2, List.length_cons]
      omega
    · next hx =>
      rw [covered_cons_of_spare hx, List.length_cons, List.length_cons]
      omega

/-- **There are fewer keys than items exactly if fewer keys are spare than items are uncovered.** -/
theorem length_lt_iff (h : items.Nodup) :
    keys.length < items.length ↔ (spare items keys).length < (uncovered items keys).length := by
  have hkeys : (covered items keys).length + (spare items keys).length = keys.length :=
    covered_add_spare h
  have hitems : (covered items keys).length + (uncovered items keys).length = items.length :=
    covered_add_uncovered
  omega

/-- Where every key is there once, those of no item are spare. -/
theorem spare_eq (h : keys.Nodup) :
    spare items keys = keys.filter fun x => decide (x ∉ items) := by
  induction keys with
  | nil => rfl
  | cons x keys ih =>
    obtain ⟨hx, h⟩ := List.nodup_cons.mp h
    rw [spare, List.filter_cons, ih h]
    by_cases hi : x ∈ items
    · rw [if_pos ⟨hi, hx⟩, if_neg (by simpa using hi)]
    · rw [if_neg fun hc => hi hc.1, if_pos (by simpa using hi)]

end Cover

end CqrsSaga
