import Mathlib.Data.Set.BooleanAlgebra
import Mathlib.Data.Set.Disjoint
import Mathlib.Order.CompletePartialOrder
import CqrsSaga.Async.Pool

/-!
# Independent steps

A world may be looked at through *cells*: questions to which two worlds give the same answer or
not.  An operation is confined to a footprint if its answer, the work it starts and what
becomes of the cells it writes depend on the cells it reads alone, and it leaves all other cells as
they are.  Two operations neither of which writes what the other one reads may be
performed in either order.

## Main definitions

* `Cells`, `Cells.SameOn` — a way of looking at a world, and worlds that look the same.
* `Footprint`, `Footprint.Apart` — what is read and written, and Bernstein's conditions.
* `Cells.Confined` — an operation stays within a footprint.
* `Pool.SameWork` — the same is left to do.

## Main results

* `Cells.Confined.commute` — **operations whose footprints are apart commute.**
* `Cells.Confined.enabled` — and neither can enable or disable the other.
* `Pool.next_commute`, `Pool.next_enabled` — the same for the steps of two activities.
-/

namespace CqrsSaga

variable {S : Interface} {M : Machine S}

/-- A way of looking at a world, one cell at a time. -/
structure Cells (M : Machine S) where
  /-- What is looked at. -/
  Cell : Type
  /-- Two worlds look the same. -/
  Same : Cell → M.World → M.World → Prop
  refl : ∀ x w, Same x w w
  symm : ∀ {x w w'}, Same x w w' → Same x w' w
  trans : ∀ {x w w' w''}, Same x w w' → Same x w' w'' → Same x w w''

/-- What an operation reads and writes. -/
structure Footprint (κ : Type) where
  /-- The cells it depends on. -/
  reads : Set κ
  /-- The cells it may change. -/
  writes : Set κ
  sub : writes ⊆ reads

/-- Bernstein's conditions: neither writes what the other reads. -/
structure Footprint.Apart {κ : Type} (f f' : Footprint κ) : Prop where
  left : Disjoint f.reads f'.writes
  right : Disjoint f'.reads f.writes

theorem Footprint.Apart.symm {κ : Type} {f f' : Footprint κ} (h : f.Apart f') : f'.Apart f :=
  ⟨h.right, h.left⟩

namespace Cells

variable (C : Cells M)

/-- The worlds look the same wherever `F` looks. -/
def SameOn (F : Set C.Cell) (w w' : M.World) : Prop := ∀ x ∈ F, C.Same x w w'

/-- Two outcomes of an operation tell and start the same, and look the same on `F`. -/
def Matches (F : Set C.Cell) {β : Type} : Option (M.World × β) → Option (M.World × β) → Prop
  | none, none => True
  | some a, some b => a.2 = b.2 ∧ C.SameOn F a.1 b.1
  | _, _ => False

/-- Performed by activity `i`, the operation stays within the footprint. -/
structure Confined (f : Footprint C.Cell) (w : M.World) (i : ℕ) (o : S.Op) (c : M.Choice) :
    Prop where
  /-- What comes of it depends on the cells it reads. -/
  same : ∀ {w'}, C.SameOn f.reads w w' → C.Matches f.writes (M.exec w i o c) (M.exec w' i o c)
  /-- It leaves alone the cells it does not write. -/
  leaves : ∀ {w' w₁ r ts}, C.SameOn f.reads w w' → M.exec w' i o c = some (w₁, r, ts) →
    C.SameOn f.writesᶜ w' w₁

variable {C} {F G : Set C.Cell} {w w' w'' : M.World}

theorem SameOn.refl (F : Set C.Cell) (w : M.World) : C.SameOn F w w := fun x _ => C.refl x w

theorem SameOn.mono (h : C.SameOn F w w') (hG : G ⊆ F) : C.SameOn G w w' :=
  fun x hx => h x (hG hx)

variable {f f' : Footprint C.Cell} {i j : ℕ} {o o' : S.Op} {c c' : M.Choice}

namespace Confined

/-- What an operation does where its footprint looks the same. -/
theorem moved (h : C.Confined f w i o c) (hs : C.SameOn f.reads w w') {w₁ : M.World}
    {r : Except S.Err (S.Val o)} {ts : List M.Task} (he : M.exec w i o c = some (w₁, r, ts)) :
    ∃ w₁', M.exec w' i o c = some (w₁', r, ts) ∧ C.SameOn f.writes w₁ w₁' := by
  have hm := h.same hs
  rw [he] at hm
  cases he' : M.exec w' i o c with
  | none =>
    rw [he'] at hm
    exact hm.elim
  | some b =>
    obtain ⟨w₁', r', ts'⟩ := b
    rw [he'] at hm
    obtain ⟨heq, hsame⟩ := hm
    obtain ⟨rfl, rfl⟩ := Prod.mk.inj heq
    exact ⟨w₁', rfl, hsame⟩

/-- The step of another, whose footprint is apart, leaves what an operation reads. -/
theorem untouched (h' : C.Confined f' w j o' c') (ha : f.Apart f') {w₁ : M.World}
    {r : Except S.Err (S.Val o')} {ts : List M.Task} (he : M.exec w j o' c' = some (w₁, r, ts)) :
    C.SameOn f.reads w w₁ :=
  (h'.leaves (SameOn.refl _ w) he).mono fun _ hx hx' => Set.disjoint_left.mp ha.left hx hx'

/-- **The step of another can neither enable nor disable an operation.** -/
theorem enabled (h : C.Confined f w i o c) (h' : C.Confined f' w j o' c') (ha : f.Apart f')
    {w₁ : M.World} {r : Except S.Err (S.Val o')} {ts : List M.Task}
    (he : M.exec w j o' c' = some (w₁, r, ts)) :
    (M.exec w₁ i o c).isSome ↔ (M.exec w i o c).isSome := by
  have hm := h.same (h'.untouched ha he)
  cases hw : M.exec w i o c <;> cases hw₁ : M.exec w₁ i o c <;> simp_all [Matches]

/-- **Operations whose footprints are apart commute.** -/
theorem commute (h : C.Confined f w i o c) (h' : C.Confined f' w j o' c') (ha : f.Apart f')
    {w₁ w₂ : M.World} {r : Except S.Err (S.Val o)} {r' : Except S.Err (S.Val o')}
    {ts ts' : List M.Task} (he : M.exec w i o c = some (w₁, r, ts))
    (he' : M.exec w j o' c' = some (w₂, r', ts')) :
    ∃ w₁₂ w₂₁, M.exec w₁ j o' c' = some (w₁₂, r', ts') ∧ M.exec w₂ i o c = some (w₂₁, r, ts) ∧
      ∀ x, C.Same x w₁₂ w₂₁ := by
  have hread : C.SameOn f.reads w w₂ := h'.untouched ha he'
  have hread' : C.SameOn f'.reads w w₁ := h.untouched ha.symm he
  obtain ⟨w₂₁, h₂₁, hs⟩ := h.moved hread he
  obtain ⟨w₁₂, h₁₂, hs'⟩ := h'.moved hread' he'
  refine ⟨w₁₂, w₂₁, h₁₂, h₂₁, fun x => ?_⟩
  have hleave : ∀ y ∉ f.writes, C.Same y w₂ w₂₁ := h.leaves hread h₂₁
  have hleave' : ∀ y ∉ f'.writes, C.Same y w₁ w₁₂ := h'.leaves hread' h₁₂
  by_cases hx : x ∈ f.writes
  · -- the first operation writes the cell, so the second one does not
    have hnot : x ∉ f'.writes := fun hx' => Set.disjoint_left.mp ha.left (f.sub hx) hx'
    exact C.trans (C.symm (hleave' x hnot)) (hs x hx)
  by_cases hx' : x ∈ f'.writes
  · exact C.trans (C.symm (hs' x hx')) (hleave x hx)
  · have h₁ : C.Same x w w₁ := h.leaves (SameOn.refl _ w) he x hx
    have h₂ : C.Same x w w₂ := h'.leaves (SameOn.refl _ w) he' x hx'
    exact C.trans (C.symm (hleave' x hx')) (C.trans (C.symm h₁) (C.trans h₂ (hleave x hx)))

end Confined

end Cells

/-! ### Steps of pools -/

namespace Pool

variable {sys : System M}

/-- The same is left to do: the first `n` activities are the same, and so are those started
since, in whatever order. -/
structure SameWork (n : ℕ) (p q : Pool sys) : Prop where
  running : p.acts.take n = q.acts.take n
  started : (p.acts.drop n).Perm (q.acts.drop n)

variable {C : Cells M} {f f' : Footprint C.Cell} {p p₁ p₂ : Pool sys} {i j : ℕ} {t t' : sys.Tag}
  {o o' : S.Op} {k : Except S.Err (S.Val o) → Async S sys.Res}
  {k' : Except S.Err (S.Val o') → Async S sys.Res} {c c' : M.Choice}

/-- Another activity is still where it was. -/
theorem next_run_other (hi : p.acts[i]? = some ⟨t, .await o k⟩) (hij : i ≠ j)
    (h : p.next (.run j c') = some p₂) : p₂.acts[i]? = some ⟨t, .await o k⟩ := by
  obtain ⟨t', o', k', w, r, ts, -, -, rfl⟩ := next_run h
  have hlt := (List.getElem?_eq_some_iff.mp hi).1
  dsimp only
  rw [List.getElem?_append_left (by simpa using hlt), List.getElem?_set_ne (Ne.symm hij), hi]

/-- What performing an operation comes to. -/
theorem next_run_eq {w : M.World} {r : Except S.Err (S.Val o)} {ts : List M.Task}
    (hi : p.acts[i]? = some ⟨t, .await o k⟩) (he : M.exec p.world i o c = some (w, r, ts)) :
    p.next (.run i c) =
      some ⟨w, p.acts.set i ⟨t, k r⟩ ++ (ts.filterMap sys.spawned).map sys.begin⟩ := by
  simp only [next, hi, he]

theorem next_run_isSome (hi : p.acts[i]? = some ⟨t, .await o k⟩) :
    (p.next (.run i c)).isSome ↔ (M.exec p.world i o c).isSome := by
  simp only [next, hi]
  cases M.exec p.world i o c <;> rfl

/-- **The step of another activity can neither enable nor disable one**, if their footprints are
apart. -/
theorem next_enabled (hi : p.acts[i]? = some ⟨t, .await o k⟩)
    (hj : p.acts[j]? = some ⟨t', .await o' k'⟩) (hij : i ≠ j) (h : C.Confined f p.world i o c)
    (h' : C.Confined f' p.world j o' c') (ha : f.Apart f') (hn : p.next (.run j c') = some p₂) :
    (p₂.next (.run i c)).isSome ↔ (p.next (.run i c)).isSome := by
  obtain ⟨r, ts, he, -⟩ := next_run_at hj hn
  rw [next_run_isSome (next_run_other hi hij hn), next_run_isSome hi]
  exact h.enabled h' ha he

/-- **Steps of two activities whose footprints are apart may be taken in either order.** -/
theorem next_commute (hi : p.acts[i]? = some ⟨t, .await o k⟩)
    (hj : p.acts[j]? = some ⟨t', .await o' k'⟩) (hij : i ≠ j) (h : C.Confined f p.world i o c)
    (h' : C.Confined f' p.world j o' c') (ha : f.Apart f') (hn : p.next (.run i c) = some p₁)
    (hn' : p.next (.run j c') = some p₂) :
    ∃ q q', p₁.next (.run j c') = some q ∧ p₂.next (.run i c) = some q' ∧
      (∀ x, C.Same x q.world q'.world) ∧ SameWork p.acts.length q q' := by
  obtain ⟨r, ts, he, -⟩ := next_run_at hi hn
  obtain ⟨r', ts', he', -⟩ := next_run_at hj hn'
  obtain ⟨w₁₂, w₂₁, h₁₂, h₂₁, hs⟩ := h.commute h' ha he he'
  refine ⟨_, _, next_run_eq (next_run_other hj (Ne.symm hij) hn) h₁₂,
    next_run_eq (next_run_other hi hij hn') h₂₁, hs, ?_⟩
  have hacts := congrArg Pool.acts (Option.some.inj (hn.symm.trans (next_run_eq hi he)))
  have hacts' := congrArg Pool.acts (Option.some.inj (hn'.symm.trans (next_run_eq hj he')))
  have hlt := (List.getElem?_eq_some_iff.mp hi).1
  have hlt' := (List.getElem?_eq_some_iff.mp hj).1
  dsimp only at hacts hacts'
  constructor
  · dsimp only
    rw [hacts, hacts', List.set_append_left _ _ (by simpa using hlt'),
      List.set_append_left _ _ (by simpa using hlt), List.set_comm _ _ hij, List.append_assoc,
      List.append_assoc, List.take_left' (by simp), List.take_left' (by simp)]
  · dsimp only
    rw [hacts, hacts', List.set_append_left _ _ (by simpa using hlt'),
      List.set_append_left _ _ (by simpa using hlt), List.append_assoc, List.append_assoc,
      List.drop_left' (by simp), List.drop_left' (by simp)]
    exact List.perm_append_comm

end Pool

end CqrsSaga
