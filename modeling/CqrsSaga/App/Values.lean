import Mathlib.Data.List.Infix
import Mathlib.Data.List.Lex
import Mathlib.Data.List.Sort
import Mathlib.Data.Rat.Floor
import Mathlib.Tactic.Linarith

/-!
# Values of the runtime

The parts of JavaScript, of Node's `crypto` and of PostgreSQL's column types the
application leans on: which optional strings count as absent, substring tests, the
order `sort()` puts strings in, digests, and what a `decimal(10,2)` column makes
of a number.

Amounts are exact rationals: the rounding modelled here is the one of the column,
not the one of floating-point sums.

## Main definitions

* `truthy` — a string that is neither absent nor empty.
* `includes`, `utf16`, `sortStrings` — `String.prototype.includes` and `sort()`.
* `Hashes` — the digests, as hexadecimal strings.
* `decimal102` — the value a `decimal(10,2)` column stores, if it fits.

## Main results

* `utf16_injective`, `sortStrings_eq` — sorting forgets the order, and nothing else.
* `decimal102_stored` — a stored value is stored unchanged.
-/

namespace CqrsSaga

/-- A string counting as present in a condition or before `||`: neither `undefined`
nor empty. -/
def truthy : Option String → Option String
  | some s => if s = "" then none else some s
  | none => none

@[simp] theorem truthy_none : truthy none = none := rfl

theorem truthy_some {s : String} (h : s ≠ "") : truthy (some s) = some s := by
  simp [truthy, h]

theorem truthy_eq_some {o : Option String} {s : String} :
    truthy o = some s ↔ o = some s ∧ s ≠ "" := by
  cases o with
  | none => simp
  | some t =>
    by_cases ht : t = ""
    · subst ht
      simp only [truthy, if_true, reduceCtorEq, Option.some.injEq, false_iff]
      rintro ⟨rfl, hne⟩
      exact hne rfl
    · rw [truthy_some ht]
      simp only [Option.some.injEq]
      constructor
      · rintro rfl
        exact ⟨rfl, ht⟩
      · exact fun h => h.1

/-- `s.includes(sub)`. -/
def includes (s sub : String) : Bool := decide (sub.toList <:+: s.toList)

theorem includes_append (a b c : String) : includes (a ++ b ++ c) b = true := by
  simp only [includes, String.toList_append, decide_eq_true_eq]
  exact ⟨a.toList, c.toList, rfl⟩

/-- The UTF-16 code units of a string. -/
def utf16 (s : String) : List ℕ :=
  s.toList.flatMap fun c =>
    if c.toNat < 0x10000 then [c.toNat]
    else [0xD800 + (c.toNat - 0x10000) / 0x400, 0xDC00 + (c.toNat - 0x10000) % 0x400]

theorem utf16_cons (c : Char) (cs : List Char) : utf16 (String.ofList (c :: cs)) =
    (if c.toNat < 0x10000 then [c.toNat]
      else [0xD800 + (c.toNat - 0x10000) / 0x400, 0xDC00 + (c.toNat - 0x10000) % 0x400]) ++
      utf16 (String.ofList cs) := by
  simp [utf16]

/-- No character has the code of a surrogate, so it is clear where the units of one end. -/
theorem utf16_ofList_inj : ∀ l l' : List Char,
    utf16 (String.ofList l) = utf16 (String.ofList l') → l = l' := by
  intro l
  induction l with
  | nil =>
    intro l' h
    cases l' with
    | nil => rfl
    | cons c' cs' =>
      rw [utf16_cons] at h
      split at h <;> simp [utf16] at h
  | cons c cs ih =>
    intro l' h
    cases l' with
    | nil =>
      rw [utf16_cons] at h
      split at h <;> simp [utf16] at h
    | cons c' cs' =>
      have hc : c.toNat < 0xD800 ∨ 0xDFFF < c.toNat ∧ c.toNat < 0x110000 := c.valid
      have hc' : c'.toNat < 0xD800 ∨ 0xDFFF < c'.toNat ∧ c'.toNat < 0x110000 := c'.valid
      rw [utf16_cons, utf16_cons] at h
      -- one unit or two for each of the two characters
      by_cases h1 : c.toNat < 0x10000 <;> by_cases h2 : c'.toNat < 0x10000
      · rw [if_pos h1, if_pos h2] at h
        obtain ⟨hcc, hcs⟩ := List.cons.inj h
        rw [Char.toNat_inj.mp hcc, ih cs' hcs]
      · rw [if_pos h1, if_neg h2] at h
        have := (List.cons.inj h).1
        omega
      · rw [if_neg h1, if_pos h2] at h
        have := (List.cons.inj h).1
        omega
      · rw [if_neg h1, if_neg h2] at h
        obtain ⟨hhigh, hrest⟩ := List.cons.inj h
        obtain ⟨hlow, hcs⟩ := List.cons.inj hrest
        have hcc : c.toNat = c'.toNat := by omega
        rw [Char.toNat_inj.mp hcc, ih cs' hcs]

/-- **Strings with the same code units are the same.** -/
theorem utf16_injective : Function.Injective utf16 := by
  intro a b h
  have := utf16_ofList_inj a.toList b.toList (by simpa using h)
  exact String.toList_inj.mp this

/-- `strings.sort()`: by UTF-16 code units. -/
def sortStrings (l : List String) : List String :=
  l.insertionSort fun a b => utf16 a ≤ utf16 b

/-- **Strings are sorted to one list, in whatever order they come.** -/
theorem sortStrings_perm {l l' : List String} (h : l.Perm l') : sortStrings l = sortStrings l' := by
  have : Std.Total fun a b : String => utf16 a ≤ utf16 b := ⟨fun a b => le_total _ _⟩
  have : IsTrans String fun a b : String => utf16 a ≤ utf16 b := ⟨fun a b c h h' => le_trans h h'⟩
  have hl : (sortStrings l).Pairwise fun a b => utf16 a ≤ utf16 b := List.pairwise_insertionSort _ l
  have hl' : (sortStrings l').Pairwise fun a b => utf16 a ≤ utf16 b :=
    List.pairwise_insertionSort _ l'
  have hperm : (sortStrings l).Perm (sortStrings l') :=
    (List.perm_insertionSort _ l).trans (h.trans (List.perm_insertionSort _ l').symm)
  exact hperm.eq_of_pairwise
    (fun a b _ _ hab hba => utf16_injective (le_antisymm hab hba)) hl hl'

/-- Lists are sorted to the same list exactly if they are permutations of one another. -/
theorem sortStrings_eq {l l' : List String} : sortStrings l = sortStrings l' ↔ l.Perm l' := by
  refine ⟨fun h => ?_, sortStrings_perm⟩
  have hl : (sortStrings l).Perm l := List.perm_insertionSort _ l
  have hl' : (sortStrings l').Perm l' := List.perm_insertionSort _ l'
  exact (hl.symm.trans (h ▸ .refl _)).trans hl'

/-- The digests of `createHash`, as hexadecimal strings. -/
class Hashes where
  /-- `createHash('sha256').update(s).digest('hex')`. -/
  sha256hex : String → String
  /-- `createHash('md5').update(s).digest('hex')`. -/
  md5hex : String → String
  /-- A sha256 digest has 256 bits. -/
  sha256hex_length : ∀ s, (sha256hex s).length = 64
  /-- An md5 digest has 128 bits. -/
  md5hex_length : ∀ s, (md5hex s).length = 32

theorem sha256hex_ne [Hashes] (s : String) : Hashes.sha256hex s ≠ "" := by
  intro h
  have := Hashes.sha256hex_length s
  rw [h] at this
  simp at this

/-- Digests of a few texts, and zeros for all others: what examples run on. -/
abbrev sampleHashes : Hashes where
  sha256hex s :=
    if s = "" then "e3b0c44298fc1c149afbf4c8996fb92427ae41e4649b934ca495991b7852b855"
    else "0000000000000000000000000000000000000000000000000000000000000000"
  md5hex s :=
    if s = "product-1" then "42f1e2fa04bc46d2bd22d11514db6623"
    else if s = "key-1" then "21af6b8b5e2244835679bbdbe0ab03a6"
    else "00000000000000000000000000000000"
  sha256hex_length := by
    intro s
    split <;> rfl
  md5hex_length := by
    intro s
    split
    · rfl
    · split <;> rfl

namespace Samples

/-- What examples run on. -/
scoped instance hashes : Hashes := sampleHashes

end Samples

/-! ### The `decimal(10,2)` column -/

/-- A number in hundredths, rounded half away from zero. -/
def hundredths (q : ℚ) : ℤ :=
  if 0 ≤ q then (q * 100 + 1 / 2).floor else -(-q * 100 + 1 / 2).floor

/-- What a `decimal(10,2)` column stores for `q`; `none` where the rounded value has
more than ten digits, which the database refuses. -/
def decimal102 (q : ℚ) : Option ℚ :=
  if (hundredths q).natAbs < 10 ^ 10 then some (hundredths q / 100) else none

theorem hundredths_div (n : ℤ) : hundredths (n / 100) = n := by
  have hfloor : ∀ m : ℤ, ((m : ℚ) + 1 / 2).floor = m := by
    intro m
    change ⌊(m : ℚ) + 1 / 2⌋ = m
    exact Int.floor_eq_iff.mpr ⟨by linarith, by linarith⟩
  unfold hundredths
  split
  · have : (n : ℚ) / 100 * 100 + 1 / 2 = (n : ℚ) + 1 / 2 := by ring
    rw [this, hfloor]
  · have : -((n : ℚ) / 100) * 100 + 1 / 2 = ((-n : ℤ) : ℚ) + 1 / 2 := by push_cast; ring
    rw [this, hfloor]
    omega

/-- **A stored value is stored unchanged.** -/
theorem decimal102_stored {q r : ℚ} (h : decimal102 q = some r) : decimal102 r = some r := by
  unfold decimal102 at h
  split at h
  · next hlt =>
    simp only [Option.some.injEq] at h
    subst h
    rw [decimal102, hundredths_div, if_pos hlt]
  · simp at h

end CqrsSaga
