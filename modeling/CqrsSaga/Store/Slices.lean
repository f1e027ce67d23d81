import Mathlib.Data.List.Nodup
import Mathlib.Data.Set.Insert
import CqrsSaga.Store.Table

/-!
# Slices of a table

The rows of a table for which a column has a given value, in the order of the table.  A `save` that
keeps the column of the row it replaces changes one slice, and changes it by what the slice
holds; a query that asks for the value of the column is answered by one slice; and two
tables with the same slices have the same rows.

## Main definitions

* `Table.slice`, `Table.rowsWith` — the rows with a value in a column, in order and as a set.
* `Table.keys` — the primary keys.
* `Table.SavedAlike` — what saving a row in two tables has in common.

## Main results

* `Table.slice_save_self`, `Table.slice_save_of_ne`, `Table.save_alike` — a `save`, slice by
  slice.
* `Table.find?_slice` — a query on one slice.
* `Table.perm_of_slices` — **the slices determine the rows.**
* `Table.rowsWith_replace`, `Table.rowsWith_insert` — a value that has one row, or none.
* `Table.keys_perm`, `Table.keys_insert` — the primary keys when rows change or one is added.
-/

namespace CqrsSaga

namespace Table

variable {ρ κ ι ν : Type} {pk : ρ → κ} {uk : ρ → Option ι} [DecidableEq ν] {f : ρ → ν} {v : ν}
  {t t' : Table pk uk} {r : ρ}

/-- The rows for which the column `f` is `v`. -/
def slice (t : Table pk uk) (f : ρ → ν) (v : ν) : List ρ := t.rows.filter fun r => decide (f r = v)

theorem mem_slice : r ∈ t.slice f v ↔ r ∈ t ∧ f r = v := by
  simp only [slice, List.mem_filter, decide_eq_true_eq]
  exact Iff.rfl

/-- The slices determine whether a row is stored. -/
theorem mem_congr (h : t.slice f (f r) = t'.slice f (f r)) : r ∈ t ↔ r ∈ t' := by
  have hmem : r ∈ t.slice f (f r) ↔ r ∈ t'.slice f (f r) := by rw [h]
  simpa only [mem_slice, and_true] using hmem

/-- **A query that asks for a value of the column is answered by one slice.** -/
theorem find?_slice {q : ρ → Bool} (h : ∀ r ∈ t, q r = true → f r = v) :
    t.find? q = (t.slice f v).find? q := by
  have hrows : ∀ l : List ρ, (∀ r ∈ l, q r = true → f r = v) →
      l.find? q = (l.filter fun r => decide (f r = v)).find? q := by
    intro l
    induction l with
    | nil => exact fun _ => rfl
    | cons x l ih =>
      intro hl
      have ih := ih fun r hr => hl r (List.mem_cons_of_mem _ hr)
      by_cases hx : q x = true
      · have hv := hl x List.mem_cons_self hx
        rw [List.filter_cons_of_pos (by simpa using hv), List.find?_cons_of_pos hx,
          List.find?_cons_of_pos hx]
      · rw [List.find?_cons_of_neg hx, ih, List.filter_cons]
        split
        · rw [List.find?_cons_of_neg hx]
        · rfl
  exact hrows t.rows h

/-- The rows are different. -/
theorem rows_nodup (t : Table pk uk) : t.rows.Nodup :=
  List.Pairwise.imp (fun h heq => h (congrArg pk heq)) t.pk_ne

/-- **The slices determine the rows**, up to their order. -/
theorem perm_of_slices (h : ∀ v, t.slice f v = t'.slice f v) : t.rows.Perm t'.rows :=
  (List.perm_ext_iff_of_nodup t.rows_nodup t'.rows_nodup).mpr fun _ => mem_congr (h _)

/-! ### Saving a row -/

variable [DecidableEq κ]

/-- A row is put into its slice. -/
theorem put_filter_self : ∀ {l : List ρ}, (∀ x ∈ l, pk x = pk r → f x = f r) →
    (put pk r l).filter (fun x => decide (f x = f r)) =
      put pk r (l.filter fun x => decide (f x = f r)) := by
  intro l
  induction l with
  | nil => simp [put]
  | cons x l ih =>
    intro h
    have ih := ih fun y hy => h y (List.mem_cons_of_mem _ hy)
    rw [put]
    split
    · next hk =>
      rw [List.filter_cons_of_pos (by simp), List.filter_cons_of_pos
        (by simpa using h x List.mem_cons_self hk), put, if_pos hk]
    · next hk =>
      rw [List.filter_cons, List.filter_cons]
      split
      · rw [ih, put, if_neg hk]
      · exact ih

/-- The other slices stay as they are. -/
theorem put_filter_of_ne (hv : v ≠ f r) : ∀ {l : List ρ}, (∀ x ∈ l, pk x = pk r → f x = f r) →
    (put pk r l).filter (fun x => decide (f x = v)) = l.filter fun x => decide (f x = v) := by
  intro l
  induction l with
  | nil => intro _; simp [put, Ne.symm hv]
  | cons x l ih =>
    intro h
    have ih := ih fun y hy => h y (List.mem_cons_of_mem _ hy)
    rw [put]
    split
    · next hk =>
      have hx := h x List.mem_cons_self hk
      rw [List.filter_cons_of_neg (by simpa using Ne.symm hv),
        List.filter_cons_of_neg (by simpa [hx] using Ne.symm hv)]
    · rw [List.filter_cons, List.filter_cons, ih]

variable [DecidableEq ι]

theorem rows_save (h : t.save r = some t') : t'.rows = put pk r t.rows := by
  unfold save at h
  split at h
  · simp at h
  · rw [← Option.some.inj h]

/-- The slice of the saved row. -/
theorem slice_save_self (h : t.save r = some t') (hf : ∀ x ∈ t, pk x = pk r → f x = f r) :
    t'.slice f (f r) = put pk r (t.slice f (f r)) := by
  unfold slice
  rw [rows_save h]
  exact put_filter_self hf

/-- The other slices. -/
theorem slice_save_of_ne (h : t.save r = some t') (hf : ∀ x ∈ t, pk x = pk r → f x = f r)
    (hv : v ≠ f r) : t'.slice f v = t.slice f v := by
  unfold slice
  rw [rows_save h]
  exact put_filter_of_ne hv hf

/-- The primary keys after a `save`. -/
theorem exists_pk_save (h : t.save r = some t') (a : κ) :
    (∃ x ∈ t', pk x = a) ↔ pk r = a ∨ ∃ x ∈ t, pk x = a := by
  constructor
  · rintro ⟨x, hx, rfl⟩
    rcases (mem_save h).mp hx with rfl | ⟨hx, -⟩
    · exact Or.inl rfl
    · exact Or.inr ⟨x, hx, rfl⟩
  · rintro (rfl | ⟨x, hx, rfl⟩)
    · exact ⟨r, mem_save_self h, rfl⟩
    · by_cases hk : pk x = pk r
      · exact ⟨r, mem_save_self h, hk.symm⟩
      · exact ⟨x, (mem_save h).mpr (Or.inr ⟨hx, hk⟩), rfl⟩

/-- **What a `save` does to two tables with the same slice for the row**: to that slice, to the
other ones, and to the primary keys. -/
structure SavedAlike (pk : ρ → κ) {uk : ρ → Option ι} (f : ρ → ν) (r : ρ)
    (t' u u' : Table pk uk) : Prop where
  self : u.slice f (f r) = u'.slice f (f r)
  others : ∀ v, v ≠ f r → t'.slice f v = u'.slice f v
  pk_self : (∃ x ∈ u, pk x = pk r) = ∃ x ∈ u', pk x = pk r
  pk_others : ∀ a, a ≠ pk r → (∃ x ∈ t', pk x = a) = ∃ x ∈ u', pk x = a

theorem save_alike {u u' : Table pk uk} (h : t.save r = some u) (h' : t'.save r = some u')
    (hs : t.slice f (f r) = t'.slice f (f r)) (hf : ∀ x ∈ t, pk x = pk r → f x = f r)
    (hf' : ∀ x ∈ t', pk x = pk r → f x = f r) : SavedAlike pk f r t' u u' where
  self := by rw [slice_save_self h hf, slice_save_self h' hf', hs]
  others := fun v hv => (slice_save_of_ne h' hf' hv).symm
  pk_self := propext ⟨fun _ => ⟨r, mem_save_self h', rfl⟩, fun _ => ⟨r, mem_save_self h, rfl⟩⟩
  pk_others := by
    intro a ha
    refine propext ((exists_pk_save h' a).trans ⟨fun hor => ?_, Or.inr⟩).symm
    exact hor.resolve_left (Ne.symm ha)

/-- Whether a `save` is refused is decided by the rows with the indexed value. -/
theorem save_isSome_congr (h : t.slice uk (uk r) = t'.slice uk (uk r)) :
    (t.save r).isSome = (t'.save r).isSome := by
  have hmem : ∀ x, uk x = uk r → (x ∈ t ↔ x ∈ t') := fun x hx =>
    mem_congr (f := uk) (by rw [hx]; exact h)
  have hnone : t.save r = none ↔ t'.save r = none := by
    rw [save_eq_none, save_eq_none]
    constructor
    · rintro ⟨x, hx, hk, i, hi, hr⟩
      exact ⟨x, (hmem x (hi.trans hr.symm)).mp hx, hk, i, hi, hr⟩
    · rintro ⟨x, hx, hk, i, hi, hr⟩
      exact ⟨x, (hmem x (hi.trans hr.symm)).mpr hx, hk, i, hi, hr⟩
  cases hs : t.save r <;> cases hs' : t'.save r <;> simp_all

/-! ### Values with one row -/

omit [DecidableEq ν] [DecidableEq κ] [DecidableEq ι]

variable {s : ρ}

/-- The set of the rows for which the column `f` is `v`. -/
def rowsWith (t : Table pk uk) (f : ρ → ν) (v : ν) : Set ρ := {r | r ∈ t ∧ f r = v}

theorem mem_rowsWith : r ∈ t.rowsWith f v ↔ r ∈ t ∧ f r = v := Iff.rfl

/-- The one row with a value is replaced. -/
theorem rowsWith_replace (hmem : ∀ z, z ∈ t' ↔ z = r ∨ z ∈ t ∧ pk z ≠ pk r)
    (ht : t.rowsWith f v = {s}) (hk : pk r = pk s) (hr : f r = v) :
    t'.rowsWith f v = {r} ∧ ∀ u, u ≠ v → t'.rowsWith f u = t.rowsWith f u := by
  have hs : s ∈ t ∧ f s = v := mem_rowsWith.mp (ht ▸ Set.mem_singleton s)
  constructor
  · ext z
    rw [mem_rowsWith, hmem, Set.mem_singleton_iff]
    constructor
    · rintro ⟨rfl | ⟨hz, hne⟩, hv⟩
      · rfl
      · have hzs : z ∈ t.rowsWith f v := ⟨hz, hv⟩
        rw [ht, Set.mem_singleton_iff] at hzs
        exact absurd (hzs ▸ hk.symm) hne
    · rintro rfl
      exact ⟨Or.inl rfl, hr⟩
  · intro u hu
    ext z
    rw [mem_rowsWith, mem_rowsWith, hmem]
    constructor
    · rintro ⟨rfl | ⟨hz, -⟩, hv⟩
      · exact absurd (hv.symm.trans hr) hu
      · exact ⟨hz, hv⟩
    · rintro ⟨hz, hv⟩
      refine ⟨Or.inr ⟨hz, fun hzr => hu ?_⟩, hv⟩
      obtain rfl := eq_of_pk hz hs.1 (hzr.trans hk)
      exact hv.symm.trans hs.2

/-- A value without a row is given one. -/
theorem rowsWith_insert (hmem : ∀ z, z ∈ t' ↔ z = r ∨ z ∈ t) (ht : t.rowsWith f v = ∅)
    (hr : f r = v) :
    t'.rowsWith f v = {r} ∧ ∀ u, u ≠ v → t'.rowsWith f u = t.rowsWith f u := by
  constructor
  · ext z
    rw [mem_rowsWith, hmem, Set.mem_singleton_iff]
    constructor
    · rintro ⟨rfl | hz, hv⟩
      · rfl
      · have hzv : z ∈ t.rowsWith f v := ⟨hz, hv⟩
        rw [ht] at hzv
        exact hzv.elim
    · rintro rfl
      exact ⟨Or.inl rfl, hr⟩
  · intro u hu
    ext z
    rw [mem_rowsWith, mem_rowsWith, hmem]
    constructor
    · rintro ⟨rfl | hz, hv⟩
      · exact absurd (hv.symm.trans hr) hu
      · exact ⟨hz, hv⟩
    · exact fun hz => ⟨Or.inr hz.1, hz.2⟩

/-! ### The primary keys -/

/-- The primary keys of the rows. -/
def keys (t : Table pk uk) : List κ := t.rows.map pk

theorem mem_keys {a : κ} : a ∈ t.keys ↔ ∃ x ∈ t, pk x = a := List.mem_map

theorem keys_nodup (t : Table pk uk) : t.keys.Nodup := List.pairwise_map.mpr t.pk_ne

/-- Rows that change keep their keys. -/
theorem keys_perm (h : ∀ a, (∃ x ∈ t, pk x = a) ↔ ∃ x ∈ t', pk x = a) : t.keys.Perm t'.keys :=
  (List.perm_ext_iff_of_nodup t.keys_nodup t'.keys_nodup).mpr fun a => by
    rw [mem_keys, mem_keys, h a]

/-- A row that is added brings its key. -/
theorem keys_insert (hmem : ∀ z, z ∈ t' ↔ z = r ∨ z ∈ t) (hr : ∀ x ∈ t, pk x ≠ pk r) :
    t'.keys.Perm (pk r :: t.keys) := by
  have hfresh : pk r ∉ t.keys := by
    intro h
    obtain ⟨x, hx, hk⟩ := mem_keys.mp h
    exact hr x hx hk
  refine (List.perm_ext_iff_of_nodup t'.keys_nodup (List.nodup_cons.mpr ⟨hfresh, t.keys_nodup⟩)).mpr
    fun a => ?_
  rw [List.mem_cons, mem_keys, mem_keys]
  constructor
  · rintro ⟨x, hx, rfl⟩
    rcases (hmem x).mp hx with rfl | hx
    · exact Or.inl rfl
    · exact Or.inr ⟨x, hx, rfl⟩
  · rintro (rfl | ⟨x, hx, rfl⟩)
    · exact ⟨r, (hmem r).mpr (Or.inl rfl), rfl⟩
    · exact ⟨x, (hmem x).mpr (Or.inr hx), rfl⟩

end Table

end CqrsSaga
