import Mathlib.Algebra.Group.Nat.Defs
import Mathlib.Data.List.Basic

/-!
# Text as bytes, and bytes as text

A string goes into a digest or onto the wire as its UTF-8 bytes; base64url writes any bytes with 64
characters that need no escaping, four for every three bytes and no padding.  Three bytes are
written without a look at the ones after them, so texts with a common beginning are encodings with
a common beginning.

## Main definitions

* `utf8` — the bytes of a string.
* `Base64Url.encode`, `base64url` — the encoding, of bytes and of a string.

## Main results

* `Base64Url.encode_append` — an encoding splits wherever its bytes do, in threes.
* `Base64Url.base64url_append` — the encoding of a string begins with that of its first bytes.
-/

namespace CqrsSaga

/-! ### UTF-8 -/

/-- The UTF-8 bytes of a string. -/
def utf8 (s : String) : List UInt8 := s.toList.flatMap String.utf8EncodeChar

theorem utf8_append (s t : String) : utf8 (s ++ t) = utf8 s ++ utf8 t := by
  simp [utf8]

/-- Every character takes a byte at least. -/
theorem length_le_utf8 (s : String) : s.length ≤ (utf8 s).length := by
  rw [utf8, ← String.length_toList]
  induction s.toList with
  | nil => exact Nat.le_refl 0
  | cons c cs ih =>
    have hc := Char.utf8Size_pos c
    simp only [List.flatMap_cons, List.length_append, List.length_cons,
      String.length_utf8EncodeChar]
    omega

/-! ### The encoding -/

namespace Base64Url

/-- The character of a six-bit number. -/
def digit (n : ℕ) : Char :=
  if n < 26 then Char.ofNat (n + 65)
  else if n < 52 then Char.ofNat (n + 71)
  else if n < 62 then Char.ofNat (n - 4)
  else if n = 62 then '-'
  else '_'

/-- The four characters of 24 bits. -/
def quantum (n : ℕ) : List Char :=
  [digit (n / 2 ^ 18), digit (n / 2 ^ 12 % 64), digit (n / 2 ^ 6 % 64), digit (n % 64)]

/-- The encoding of some bytes; what is left of a last group that is not full is not written. -/
def encode : List UInt8 → List Char
  | a :: b :: c :: rest =>
    quantum (a.toNat * 2 ^ 16 + b.toNat * 2 ^ 8 + c.toNat) ++ encode rest
  | [a, b] => (quantum (a.toNat * 2 ^ 16 + b.toNat * 2 ^ 8)).take 3
  | [a] => (quantum (a.toNat * 2 ^ 16)).take 2
  | [] => []

theorem length_quantum (n : ℕ) : (quantum n).length = 4 := rfl

/-- **An encoding splits wherever its bytes do**, in threes. -/
theorem encode_append {xs : List UInt8} (ys : List UInt8) (h : 3 ∣ xs.length) :
    encode (xs ++ ys) = encode xs ++ encode ys := by
  induction xs using encode.induct with
  | case1 a b c rest ih =>
    have hrest : 3 ∣ rest.length := by
      simp only [List.length_cons] at h
      omega
    simp only [List.cons_append, encode, ih hrest, List.append_assoc]
  | case2 a b => simp at h
  | case3 a => simp at h
  | case4 => rfl

/-- Four characters for every three bytes. -/
theorem length_encode {xs : List UInt8} (h : 3 ∣ xs.length) :
    3 * (encode xs).length = 4 * xs.length := by
  induction xs using encode.induct with
  | case1 a b c rest ih =>
    have hrest : 3 ∣ rest.length := by
      simp only [List.length_cons] at h
      omega
    have := ih hrest
    simp only [encode, List.length_append, length_quantum, List.length_cons]
    omega
  | case2 a b => simp at h
  | case3 a => simp at h
  | case4 => rfl

end Base64Url

/-- The encoding of the UTF-8 bytes of a string. -/
def base64url (text : String) : String := String.ofList (Base64Url.encode (utf8 text))

namespace Base64Url

/-- **The encoding of a string begins with that of its first bytes**, whatever comes after them. -/
theorem base64url_append (s t : String) {n : ℕ} (hn : 3 ∣ n) (hs : n ≤ (utf8 s).length) :
    ∃ rest, base64url (s ++ t) = String.ofList (encode ((utf8 s).take n)) ++ rest := by
  refine ⟨String.ofList (encode ((utf8 s).drop n ++ utf8 t)), ?_⟩
  have hlen : ((utf8 s).take n).length = n := List.length_take_of_le hs
  rw [base64url, utf8_append, ← String.ofList_append,
    ← encode_append _ (hlen.symm ▸ hn), ← List.append_assoc, List.take_append_drop]

end Base64Url

example : base64url "Man" = "TWFu" := by decide +kernel

end CqrsSaga
