import Mathlib.Data.Nat.Notation
import Mathlib.Data.List.Pairwise

/-!
# Tables with a primary key and a unique index

A table is a list of rows no two of which share their primary key, and no two of
which carry the same value in the indexed column; the index is partial, as that of
a nullable unique column is.  Both facts are part of the type, so they hold in
every state without being proved again: the only operation that changes a table,
`Table.save`, refuses a row that would break the index, which is when the database
reports a constraint violation.

## Main definitions

* `Table pk uk` — tables keyed by `pk` and indexed by `uk`.
* `Table.save` — insert a row, or replace the one with its primary key.
* `Table.find?`, `Table.findAll` — the first row, and all rows, passing a test.

## Main results

* `Table.eq_of_pk`, `Table.eq_of_uk` — a key belongs to one row.
* `Table.mem_save` — the rows after a `save`.
* `Table.save_eq_none` — a `save` is refused exactly when it breaks the index.
-/

namespace CqrsSaga

/-- A table whose rows have the primary key `pk` and the unique index `uk`. -/
structure Table {ρ κ ι : Type} (pk : ρ → κ) (uk : ρ → Option ι) where
  /-- The rows, in the order they were inserted. -/
  rows : List ρ
  /-- The primary key is unique. -/
  pk_ne : rows.Pairwise fun x y => pk x ≠ pk y
  /-- The index is unique. -/
  uk_ne : rows.Pairwise fun x y => ∀ i, uk x = some i → uk y ≠ some i

namespace Table

variable {ρ κ ι : Type} {pk : ρ → κ} {uk : ρ → Option ι}

instance : Membership ρ (Table pk uk) := ⟨fun t r => r ∈ t.rows⟩

theorem mem_rows {t : Table pk uk} {r : ρ} : r ∈ t.rows ↔ r ∈ t := Iff.rfl

/-- The table without rows. -/
def empty : Table pk uk := ⟨[], List.Pairwise.nil, List.Pairwise.nil⟩

@[simp] theorem notMem_empty (r : ρ) : r ∉ (empty : Table pk uk) := List.not_mem_nil

/-- A row is determined by its primary key. -/
theorem eq_of_pk {t : Table pk uk} {x y : ρ} (hx : x ∈ t) (hy : y ∈ t) (h : pk x = pk y) :
    x = y := by
  by_cases hxy : x = y
  · exact hxy
  · have : Std.Symm fun x y : ρ => pk x ≠ pk y := ⟨fun _ _ => Ne.symm⟩
    exact absurd h (t.pk_ne.forall hx hy hxy)

/-- A row is determined by its indexed column. -/
theorem eq_of_uk {t : Table pk uk} {x y : ρ} {i : ι} (hx : x ∈ t) (hy : y ∈ t)
    (hi : uk x = some i) (hj : uk y = some i) : x = y := by
  by_cases hxy : x = y
  · exact hxy
  · have : Std.Symm fun x y : ρ => ∀ i, uk x = some i → uk y ≠ some i :=
      ⟨fun _ _ h i hy hx => h i hx hy⟩
    exact absurd hj (t.uk_ne.forall hx hy hxy i hi)

/-! ### Looking rows up -/

/-- The first row passing the test. -/
def find? (t : Table pk uk) (f : ρ → Bool) : Option ρ := t.rows.find? f

/-- The rows passing the test. -/
def findAll (t : Table pk uk) (f : ρ → Bool) : List ρ := t.rows.filter f

theorem mem_of_find? {t : Table pk uk} {f : ρ → Bool} {r : ρ} (h : t.find? f = some r) : r ∈ t :=
  List.mem_of_find?_eq_some h

theorem find?_some {t : Table pk uk} {f : ρ → Bool} {r : ρ} (h : t.find? f = some r) :
    f r = true := List.find?_some h

theorem find?_eq_none {t : Table pk uk} {f : ρ → Bool} :
    t.find? f = none ↔ ∀ r ∈ t, f r = false := by
  unfold find?
  rw [List.find?_eq_none]
  simp only [Bool.not_eq_true]
  exact Iff.rfl

theorem find?_isSome {t : Table pk uk} {f : ρ → Bool} :
    (t.find? f).isSome ↔ ∃ r ∈ t, f r = true := List.find?_isSome

/-- A row that is the only one passing a test is the one found. -/
theorem find?_eq_some {t : Table pk uk} {f : ρ → Bool} {r : ρ} (hr : r ∈ t) (hf : f r = true)
    (huniq : ∀ x ∈ t, f x = true → x = r) : t.find? f = some r := by
  cases h : t.find? f with
  | none => simp [find?_eq_none.mp h r hr] at hf
  | some x => rw [huniq x (mem_of_find? h) (find?_some h)]

theorem mem_findAll {t : Table pk uk} {f : ρ → Bool} {r : ρ} :
    r ∈ t.findAll f ↔ r ∈ t ∧ f r = true := List.mem_filter

/-! ### Saving a row -/

variable [DecidableEq κ]

/-- Replace the row with the primary key of `r` by `r`, or append `r`. -/
def put (pk : ρ → κ) (r : ρ) : List ρ → List ρ
  | [] => [r]
  | x :: xs => if pk x = pk r then r :: xs else x :: put pk r xs

theorem mem_put {r y : ρ} : ∀ {xs : List ρ}, xs.Pairwise (fun x y => pk x ≠ pk y) →
    (y ∈ put pk r xs ↔ y = r ∨ y ∈ xs ∧ pk y ≠ pk r) := by
  intro xs
  induction xs with
  | nil => simp [put]
  | cons x xs ih =>
    intro h
    obtain ⟨hx, hxs⟩ := List.pairwise_cons.mp h
    rw [put]
    split
    · next heq =>
      -- the replaced row is the only one with this key
      simp only [List.mem_cons]
      constructor
      · rintro (rfl | hy)
        · exact Or.inl rfl
        · exact Or.inr ⟨Or.inr hy, fun hk => hx y hy (heq.trans hk.symm)⟩
      · rintro (rfl | ⟨rfl | hy, hk⟩)
        · exact Or.inl rfl
        · exact absurd heq hk
        · exact Or.inr hy
    · next hne =>
      simp only [List.mem_cons, ih hxs]
      constructor
      · rintro (rfl | rfl | ⟨hy, hk⟩)
        · exact Or.inr ⟨Or.inl rfl, hne⟩
        · exact Or.inl rfl
        · exact Or.inr ⟨Or.inr hy, hk⟩
      · rintro (rfl | ⟨rfl | hy, hk⟩)
        · exact Or.inr (Or.inl rfl)
        · exact Or.inl rfl
        · exact Or.inr (Or.inr ⟨hy, hk⟩)

/-- A relation between rows survives a `put` of a row standing in it to all rows
with another key. -/
theorem pairwise_put {R : ρ → ρ → Prop} (hR : ∀ x y, R x y → R y x) {r : ρ} : ∀ {xs : List ρ},
    xs.Pairwise (fun x y => pk x ≠ pk y) → xs.Pairwise R →
      (∀ y ∈ xs, pk y ≠ pk r → R r y) → (put pk r xs).Pairwise R := by
  intro xs
  induction xs with
  | nil => intros; exact List.pairwise_singleton R r
  | cons x xs ih =>
    intro hk hxs hr
    obtain ⟨hkx, hkxs⟩ := List.pairwise_cons.mp hk
    obtain ⟨hRx, hRxs⟩ := List.pairwise_cons.mp hxs
    rw [put]
    split
    · next heq =>
      refine List.pairwise_cons.mpr ⟨fun y hy => ?_, hRxs⟩
      exact hr y (List.mem_cons_of_mem _ hy) fun h => hkx y hy (heq.trans h.symm)
    · next hne =>
      refine List.pairwise_cons.mpr
        ⟨fun y hy => ?_, ih hkxs hRxs fun y hy => hr y (List.mem_cons_of_mem _ hy)⟩
      rcases (mem_put hkxs).mp hy with rfl | ⟨hy, -⟩
      · exact hR _ _ (hr x List.mem_cons_self hne)
      · exact hRx y hy

variable [DecidableEq ι]

/-- Another row carries the indexed value of `r`. -/
def Collides (t : Table pk uk) (r : ρ) : Prop :=
  ∃ x ∈ t.rows, pk x ≠ pk r ∧ uk r ≠ none ∧ uk x = uk r

instance (t : Table pk uk) (r : ρ) : Decidable (t.Collides r) :=
  inferInstanceAs (Decidable (∃ x ∈ t.rows, pk x ≠ pk r ∧ uk r ≠ none ∧ uk x = uk r))

/-- Insert `r`, or replace the row with its primary key; `none` where that would
break the unique index. -/
def save (t : Table pk uk) (r : ρ) : Option (Table pk uk) :=
  if h : t.Collides r then none
  else some
    { rows := put pk r t.rows
      pk_ne := pairwise_put (fun _ _ => Ne.symm) t.pk_ne t.pk_ne fun _ _ hk => Ne.symm hk
      uk_ne := pairwise_put (fun _ _ hxy i hy hx => hxy i hx hy) t.pk_ne t.uk_ne
        fun y hy hk i hi hj => h ⟨y, hy, hk, by simp [hi], hj.trans hi.symm⟩ }

/-- A `save` is refused exactly when it would break the index. -/
theorem save_eq_none {t : Table pk uk} {r : ρ} :
    t.save r = none ↔ ∃ x ∈ t, pk x ≠ pk r ∧ ∃ i, uk x = some i ∧ uk r = some i := by
  have hiff : t.Collides r ↔ ∃ x ∈ t, pk x ≠ pk r ∧ ∃ i, uk x = some i ∧ uk r = some i := by
    constructor
    · rintro ⟨x, hx, hk, hn, hu⟩
      obtain ⟨i, hi⟩ := Option.ne_none_iff_exists'.mp hn
      exact ⟨x, hx, hk, i, hu.trans hi, hi⟩
    · rintro ⟨x, hx, hk, i, hxi, hri⟩
      exact ⟨x, hx, hk, by simp [hri], hxi.trans hri.symm⟩
  unfold save
  rw [← hiff]
  split <;> simp_all

/-- **The rows after a `save`**: the saved one, and those with another key. -/
theorem mem_save {t t' : Table pk uk} {r : ρ} (h : t.save r = some t') {y : ρ} :
    y ∈ t' ↔ y = r ∨ y ∈ t ∧ pk y ≠ pk r := by
  unfold save at h
  split at h
  · simp at h
  · simp only [Option.some.injEq] at h
    subst h
    exact mem_put t.pk_ne

theorem mem_save_self {t t' : Table pk uk} {r : ρ} (h : t.save r = some t') : r ∈ t' :=
  (mem_save h).mpr (Or.inl rfl)

/-- A table without an index refuses nothing. -/
theorem save_isSome_of_uk_none {t : Table pk uk} {r : ρ} (h : uk r = none) :
    ∃ t', t.save r = some t' := by
  cases hs : t.save r with
  | some t' => exact ⟨t', rfl⟩
  | none =>
    obtain ⟨x, -, -, i, -, hi⟩ := save_eq_none.mp hs
    rw [h] at hi
    simp at hi

/-- A row that keeps the indexed column of the row it replaces is not refused. -/
theorem save_isSome_of_uk_eq {t : Table pk uk} {r x : ρ} (hx : x ∈ t) (hk : pk x = pk r)
    (hu : uk x = uk r) : ∃ t', t.save r = some t' := by
  cases hs : t.save r with
  | some t' => exact ⟨t', rfl⟩
  | none =>
    obtain ⟨y, hy, hne, i, hyi, hri⟩ := save_eq_none.mp hs
    exact absurd (congrArg pk (eq_of_uk hy hx hyi (hu.trans hri)) |>.trans hk) hne

end Table

end CqrsSaga
