import Mathlib.Algebra.Order.Floor.Ring
import Mathlib.Data.List.Sort
import Mathlib.Data.Rat.Floor

/-!
# Listing rows page by page

Rows are sorted, the newest first, and cut into pages of one size.  How many pages there are is
computed from the number of rows; the pages up to that number tile the rows.

## Main definitions

* `Pages.page`, `Pages.newest` — a page of a list, and what is sorted and cut.
* `Pages.Lists` — the pages list the rows with a property, each once, in an order.

## Main results

* `Pages.flatMap_page` — **the pages tile the list.**
* `Pages.ceil_div` — the number of pages.
* `Pages.lists_newest` — **what is sorted and cut lists the rows.**
-/

namespace CqrsSaga

namespace Pages

variable {α β κ : Type}

/-- A page of a list, `size` rows each, the first one being page 0. -/
def page (l : List α) (size k : ℕ) : List α := (l.drop (k * size)).take size

/-- `count` pages of `size` rows are just enough for `n` rows. -/
def Fits (n size count : ℕ) : Prop := n ≤ count * size ∧ ∀ k < count, k * size < n

/-! ### The pages of a list -/

/-- The pages so far are the beginning of the list. -/
theorem flatMap_page_take (l : List α) (size m : ℕ) :
    (List.range m).flatMap (page l size) = l.take (m * size) := by
  induction m with
  | zero => simp
  | succ m ih =>
    rw [List.range_succ, List.flatMap_append, ih, Nat.succ_mul, List.take_add]
    simp [page]

/-- **The pages tile the list.** -/
theorem flatMap_page {l : List α} {size count : ℕ} (h : Fits l.length size count) :
    (List.range count).flatMap (page l size) = l := by
  rw [flatMap_page_take]
  exact List.take_of_length_le h.1

/-- Every page but the last is full. -/
theorem length_page {l : List α} {size count k : ℕ} (h : Fits l.length size count)
    (hk : k + 1 < count) : (page l size k).length = size := by
  have := h.2 (k + 1) hk
  rw [Nat.succ_mul] at this
  rw [page, List.length_take, List.length_drop]
  omega

/-- No page is empty. -/
theorem page_ne_nil {l : List α} {size count k : ℕ} (hsize : 0 < size)
    (h : Fits l.length size count) (hk : k < count) : page l size k ≠ [] := by
  have := h.2 k hk
  intro hnil
  have hlen := congrArg List.length hnil
  rw [page, List.length_take, List.length_drop, List.length_nil] at hlen
  omega

/-- After the last page there is nothing. -/
theorem page_eq_nil {l : List α} {size count k : ℕ} (h : Fits l.length size count)
    (hk : count ≤ k) : page l size k = [] := by
  have hle : l.length ≤ k * size := h.1.trans (Nat.mul_le_mul_right size hk)
  rw [page, List.drop_eq_nil_of_le hle, List.take_nil]

/-- **How many pages there are**: a quotient, rounded up. -/
theorem ceil_div (n : ℕ) {size : ℕ} (hsize : 0 < size) :
    ∃ count : ℕ, ⌈(n : ℚ) / (size : ℕ)⌉ = count ∧ Fits n size count := by
  have hpos : (0 : ℚ) < size := by exact_mod_cast hsize
  have hnonneg : 0 ≤ ⌈(n : ℚ) / size⌉ := Int.ceil_nonneg (by positivity)
  obtain ⟨count, hcount⟩ := Int.eq_ofNat_of_zero_le hnonneg
  obtain ⟨hlt, hle⟩ := Int.ceil_eq_iff.mp hcount
  rw [lt_div_iff₀ hpos] at hlt
  rw [div_le_iff₀ hpos] at hle
  refine ⟨count, hcount, by exact_mod_cast hle, fun k hk => ?_⟩
  -- `k` is at most the last page, which begins before the end
  have hk' : (k : ℚ) ≤ ((count : ℤ) : ℚ) - 1 := by
    have : (k : ℤ) ≤ (count : ℤ) - 1 := by omega
    exact_mod_cast this
  have := lt_of_le_of_lt (mul_le_mul_of_nonneg_right hk' hpos.le) hlt
  exact_mod_cast this

/-! ### Sorted rows -/

/-- Of what is sorted, the newest first, `take` rows after `skip`; a limit of 0 is none. -/
def newest (createdAt : α → ℕ) (rows : List α) (skip take : ℕ) : List α :=
  let rest := (rows.insertionSort fun a b => createdAt b ≤ createdAt a).drop skip
  if take = 0 then rest else rest.take take

theorem newest_eq_page (createdAt : α → ℕ) (rows : List α) {size : ℕ} (hsize : 0 < size) (k : ℕ) :
    newest createdAt rows (k * size) size =
      page (rows.insertionSort fun a b => createdAt b ≤ createdAt a) size k := by
  rw [newest, if_neg (Nat.ne_of_gt hsize), page]

/-- The rows of all pages, in the order of the pages; the first one is page 1. -/
def all (count : ℕ) (pages : ℕ → List α) : List α :=
  (List.range count).flatMap fun k => pages (k + 1)

/-- **The pages 1, …, `count` list the rows with the property `P`**, each once and in the order `R`,
`size` a page. -/
structure Lists (key : α → κ) (R : α → α → Prop) (P : α → Prop) (size count : ℕ)
    (pages : ℕ → List α) : Prop where
  /-- Every row is listed. -/
  mem : ∀ x, x ∈ all count pages ↔ P x
  /-- No row is listed twice. -/
  once : ((all count pages).map key).Nodup
  /-- The rows are listed in order. -/
  sorted : (all count pages).Pairwise R
  /-- Every page before the last is full. -/
  full : ∀ k, 0 < k → k < count → (pages k).length = size
  /-- No page up to the last is empty. -/
  nonempty : ∀ k, 0 < k → k ≤ count → pages k ≠ []
  /-- Every page after the last is empty. -/
  beyond : ∀ k, count < k → pages k = []

/-- **What is sorted and cut lists the rows.** -/
theorem lists_newest {rows : List α} {key : α → κ} {createdAt : α → ℕ} {size count : ℕ}
    (hkey : (rows.map key).Nodup) (hsize : 0 < size) (hfits : Fits rows.length size count) :
    Lists key (fun a b => createdAt b ≤ createdAt a) (fun x => x ∈ rows) size count
      fun k => newest createdAt rows ((k - 1) * size) size := by
  have : Std.Total fun a b : α => createdAt b ≤ createdAt a := ⟨fun a b => le_total _ _⟩
  have : IsTrans α fun a b : α => createdAt b ≤ createdAt a := ⟨fun a b c h h' => le_trans h' h⟩
  obtain ⟨sorted, hsorted⟩ :
      ∃ l, l = rows.insertionSort fun a b => createdAt b ≤ createdAt a := ⟨_, rfl⟩
  have hperm : sorted.Perm rows := hsorted ▸ List.perm_insertionSort _ rows
  have hpair : sorted.Pairwise fun a b => createdAt b ≤ createdAt a :=
    hsorted ▸ List.pairwise_insertionSort _ rows
  have hlen : Fits sorted.length size count := by rwa [hperm.length_eq]
  have hpage : ∀ k, newest createdAt rows ((k - 1) * size) size = page sorted size (k - 1) :=
    fun k => hsorted ▸ newest_eq_page createdAt rows hsize (k - 1)
  have hall : all count (fun k => page sorted size (k - 1)) = sorted := flatMap_page hlen
  simp only [hpage]
  refine ⟨fun x => ?_, ?_, ?_, fun k hk hlt => ?_, fun k hk hle => ?_, fun k hlt => ?_⟩
  · rw [hall]
    exact hperm.mem_iff
  · rw [hall]
    exact (hperm.map key).nodup_iff.mpr hkey
  · rw [hall]
    exact hpair
  · exact length_page hlen (by omega)
  · exact page_ne_nil hsize hlen (by omega)
  · exact page_eq_nil hlen (by omega)

/-- What is listed may be shown in another form. -/
theorem Lists.map {key : α → κ} {key' : β → κ} {R : α → α → Prop} {R' : β → β → Prop}
    {P : α → Prop} {size count : ℕ} {pages : ℕ → List α} (h : Lists key R P size count pages)
    (f : α → β) (hkey : ∀ x, key' (f x) = key x) (hR : ∀ x y, R x y → R' (f x) (f y)) :
    Lists key' R' (fun y => ∃ x, P x ∧ f x = y) size count fun k => (pages k).map f := by
  have hall : all count (fun k => (pages k).map f) = (all count pages).map f := by
    unfold all
    rw [List.map_flatMap]
  refine ⟨fun y => ?_, ?_, ?_, fun k hk hlt => ?_, fun k hk hle => ?_, fun k hlt => ?_⟩
  · rw [hall, List.mem_map]
    simp only [h.mem]
  · have hcomp : key' ∘ f = key := funext hkey
    rw [hall, List.map_map, hcomp]
    exact h.once
  · rw [hall]
    exact h.sorted.map f fun x y => hR x y
  · rw [List.length_map]
    exact h.full k hk hlt
  · intro hnil
    exact h.nonempty k hk hle (List.map_eq_nil_iff.mp hnil)
  · rw [h.beyond k hlt, List.map_nil]

end Pages

end CqrsSaga
