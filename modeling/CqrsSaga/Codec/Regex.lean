import Mathlib.Data.List.Infix
import Mathlib.Data.Nat.Notation

/-!
# Regular expressions that match one character after the other

The fragment of regular expressions in which every item stands for one character, or is repeated any
number of times: a literal character, the dot, and either of them with a star.  An
expression is not anchored: a text passes its test if some part of it matches.

The words an expression stands for and the matcher are defined apart, and `Regex.test_iff` says that
they agree.

## Main definitions

* `Regex.Atom`, `Regex.Item`, `Regex` — the expressions.
* `Regex.parse` — the expression a text denotes, if it lies in the fragment.
* `Regex.Matches` — the words an expression stands for.
* `Regex.test` — the matcher.

## Main results

* `Regex.test_iff` — **a text passes the test if and only if a part of it matches.**
* `Regex.parse_wildcard`, `Regex.test_wildcard` — a literal text followed by `.*`.
-/

namespace CqrsSaga

namespace Regex

/-- What stands for one character. -/
inductive Atom
  /-- The character itself. -/
  | char (c : Char)
  /-- Any character but a line terminator. -/
  | dot
  deriving DecidableEq, Repr

/-- A character the dot does not stand for. -/
def isLineTerminator (c : Char) : Bool :=
  c == '\n' || c == '\r' || c == '\u2028' || c == '\u2029'

/-- The atom stands for a character. -/
def Atom.accepts : Atom → Char → Bool
  | char c, d => d == c
  | dot, d => !isLineTerminator d

/-- One step of an expression. -/
inductive Item
  /-- One character. -/
  | one (a : Atom)
  /-- Any number of characters. -/
  | star (a : Atom)
  deriving DecidableEq, Repr

end Regex

/-- A regular expression. -/
abbrev Regex := List Regex.Item

namespace Regex

/-! ### What an expression stands for -/

/-- The words an expression stands for. -/
inductive Matches : Regex → List Char → Prop
  | nil : Matches [] []
  | one {a : Atom} {c : Char} {r : Regex} {w : List Char} (hc : a.accepts c = true)
      (hw : Matches r w) : Matches (.one a :: r) (c :: w)
  | done {a : Atom} {r : Regex} {w : List Char} (hw : Matches r w) : Matches (.star a :: r) w
  | more {a : Atom} {c : Char} {r : Regex} {w : List Char} (hc : a.accepts c = true)
      (hw : Matches (.star a :: r) w) : Matches (.star a :: r) (c :: w)

theorem matches_nil {w : List Char} : Matches [] w ↔ w = [] := by
  constructor
  · intro h
    cases h
    rfl
  · rintro rfl
    exact .nil

theorem matches_one {a : Atom} {r : Regex} {w : List Char} :
    Matches (.one a :: r) w ↔ ∃ c v, w = c :: v ∧ a.accepts c = true ∧ Matches r v := by
  constructor
  · intro h
    cases h with
    | one hc hw => exact ⟨_, _, rfl, hc, hw⟩
  · rintro ⟨c, v, rfl, hc, hv⟩
    exact .one hc hv

/-- A starred item stands for any number of its characters. -/
theorem matches_star {a : Atom} {r : Regex} {w : List Char} :
    Matches (.star a :: r) w ↔ ∃ u v, w = u ++ v ∧ (∀ c ∈ u, a.accepts c = true) ∧ Matches r v := by
  constructor
  · -- by induction on how often the item is repeated
    induction w with
    | nil =>
      intro h
      cases h with
      | done hw => exact ⟨[], [], rfl, by simp, hw⟩
    | cons c w ih =>
      intro h
      cases h with
      | done hw => exact ⟨[], c :: w, rfl, by simp, hw⟩
      | more hc hw =>
        obtain ⟨u, v, rfl, hu, hv⟩ := ih hw
        exact ⟨c :: u, v, rfl, by simpa [hc] using hu, hv⟩
  · rintro ⟨u, v, rfl, hu, hv⟩
    induction u with
    | nil => exact .done hv
    | cons c u ih =>
      rw [List.forall_mem_cons] at hu
      exact .more hu.1 (ih hu.2)

/-- The expression that stands for one word. -/
def literal (cs : List Char) : Regex := cs.map fun c => .one (.char c)

@[simp] theorem literal_nil : literal [] = [] := rfl

@[simp] theorem literal_cons (c : Char) (cs : List Char) :
    literal (c :: cs) = .one (.char c) :: literal cs := rfl

/-- A literal text has to be there. -/
theorem matches_literal {cs : List Char} {r : Regex} {w : List Char} :
    Matches (literal cs ++ r) w ↔ ∃ v, w = cs ++ v ∧ Matches r v := by
  induction cs generalizing w with
  | nil => simp
  | cons c cs ih =>
    rw [literal_cons, List.cons_append, matches_one]
    simp only [ih, Atom.accepts, beq_iff_eq, List.cons_append]
    constructor
    · rintro ⟨_, _, rfl, rfl, v, rfl, hv⟩
      exact ⟨v, rfl, hv⟩
    · rintro ⟨v, rfl, hv⟩
      exact ⟨c, cs ++ v, rfl, rfl, v, rfl, hv⟩

/-! ### The matcher -/

/-- Some of the characters to come are left out, each standing for `a`, and the rest passes `k`. -/
def skipping (a : Atom) (k : List Char → Bool) : List Char → Bool
  | [] => k []
  | c :: l => k (c :: l) || (a.accepts c && skipping a k l)

/-- The text begins with a match. -/
def prefixed : Regex → List Char → Bool
  | [], _ => true
  | .one _ :: _, [] => false
  | .one a :: r, c :: l => a.accepts c && prefixed r l
  | .star a :: r, l => skipping a (prefixed r) l

/-- `regExp.test(text)`. -/
def test (r : Regex) (text : String) : Bool := text.toList.tails.any (prefixed r)

theorem skipping_iff {a : Atom} {k : List Char → Bool} {l : List Char} :
    skipping a k l = true ↔ ∃ u v, l = u ++ v ∧ (∀ c ∈ u, a.accepts c = true) ∧ k v = true := by
  induction l with
  | nil =>
    rw [skipping]
    constructor
    · exact fun h => ⟨[], [], rfl, by simp, h⟩
    · rintro ⟨u, v, huv, -, hk⟩
      obtain ⟨-, rfl⟩ := List.append_eq_nil_iff.mp huv.symm
      exact hk
  | cons c l ih =>
    rw [skipping, Bool.or_eq_true, Bool.and_eq_true, ih]
    constructor
    · rintro (hk | ⟨hc, u, v, rfl, hu, hk⟩)
      · exact ⟨[], c :: l, rfl, by simp, hk⟩
      · exact ⟨c :: u, v, rfl, by simpa [hc] using hu, hk⟩
    · rintro ⟨u, v, huv, hu, hk⟩
      cases u with
      | nil =>
        left
        rw [huv]
        exact hk
      | cons d u =>
        rw [List.cons_append, List.cons.injEq] at huv
        obtain ⟨rfl, rfl⟩ := huv
        rw [List.forall_mem_cons] at hu
        exact Or.inr ⟨hu.1, u, v, rfl, hu.2, hk⟩

/-- The matcher finds the words the expression stands for at the beginning of a text. -/
theorem prefixed_iff {r : Regex} {l : List Char} :
    prefixed r l = true ↔ ∃ w v, l = w ++ v ∧ Matches r w := by
  induction r generalizing l with
  | nil => simp [prefixed, matches_nil]
  | cons x r ih =>
    cases x with
    | one a =>
      cases l with
      | nil => simp [prefixed, matches_one]
      | cons c l =>
        rw [prefixed, Bool.and_eq_true, ih]
        constructor
        · rintro ⟨hc, w, v, rfl, hw⟩
          exact ⟨c :: w, v, rfl, .one hc hw⟩
        · rintro ⟨w, v, hl, hw⟩
          obtain ⟨d, w, rfl, hd, hrest⟩ := matches_one.mp hw
          rw [List.cons_append, List.cons.injEq] at hl
          obtain ⟨rfl, rfl⟩ := hl
          exact ⟨hd, w, v, rfl, hrest⟩
    | star a =>
      rw [prefixed, skipping_iff]
      simp only [ih]
      constructor
      · rintro ⟨u, _, rfl, hu, w, v, rfl, hw⟩
        exact ⟨u ++ w, v, (List.append_assoc ..).symm, matches_star.mpr ⟨u, w, rfl, hu, hw⟩⟩
      · rintro ⟨_, v, rfl, hw⟩
        obtain ⟨u, w, rfl, hu, hw⟩ := matches_star.mp hw
        exact ⟨u, w ++ v, List.append_assoc .., hu, w, v, rfl, hw⟩

/-- **A text passes the test if and only if a part of it matches.** -/
theorem test_iff {r : Regex} {text : String} :
    test r text = true ↔ ∃ w, w <:+: text.toList ∧ Matches r w := by
  simp only [test, List.any_eq_true, List.mem_tails, prefixed_iff]
  constructor
  · rintro ⟨_, ⟨u, hu⟩, w, v, rfl, hw⟩
    exact ⟨w, ⟨u, v, by rw [← hu, List.append_assoc]⟩, hw⟩
  · rintro ⟨w, ⟨u, v, huv⟩, hw⟩
    exact ⟨w ++ v, ⟨u, by rw [← huv, List.append_assoc]⟩, w, v, rfl, hw⟩

/-- **A literal text followed by `.*` asks for that text**, and for nothing after it. -/
theorem test_wildcard {cs : List Char} {text : String} :
    test (literal cs ++ [.star .dot]) text = true ↔ cs <:+: text.toList := by
  rw [test_iff]
  constructor
  · rintro ⟨w, ⟨u, v, huv⟩, hw⟩
    obtain ⟨x, rfl, -⟩ := matches_literal.mp hw
    exact ⟨u, x ++ v, by rw [← huv]; simp⟩
  · intro h
    exact ⟨cs, h, matches_literal.mpr ⟨[], by simp, .done .nil⟩⟩

/-! ### What a text denotes -/

/-- The characters with a meaning of their own. -/
def isSpecial (c : Char) : Bool := "\\^$.*+?()[]\x7b\x7d|".toList.contains c

/-- The atom a character denotes. -/
def atom (c : Char) : Option Atom :=
  if c = '.' then some .dot else if isSpecial c then none else some (.char c)

/-- The expression a text denotes; `none` where it lies outside the fragment. -/
def parse : List Char → Option Regex
  | [] => some []
  | [c] => do
    let a ← atom c
    return [.one a]
  | c :: d :: l => do
    let a ← atom c
    if d = '*' then
      let r ← parse l
      return .star a :: r
    else
      let r ← parse (d :: l)
      return .one a :: r

/-- A character that is not special denotes itself. -/
theorem atom_plain {c : Char} (h : isSpecial c = false) : atom c = some (.char c) := by
  have hdot : c ≠ '.' := by
    rintro rfl
    exact absurd h (by decide)
  simp [atom, hdot, h]

/-- A text without special characters, followed by `.*`. -/
theorem parse_wildcard {cs : List Char} (h : ∀ c ∈ cs, isSpecial c = false) :
    parse (cs ++ ['.', '*']) = some (literal cs ++ [.star .dot]) := by
  induction cs with
  | nil => rfl
  | cons c cs ih =>
    rw [List.forall_mem_cons] at h
    have ih := ih h.2
    -- what comes next is no star
    obtain ⟨d, l, hd, hstar⟩ : ∃ d l, cs ++ ['.', '*'] = d :: l ∧ d ≠ '*' := by
      cases cs with
      | nil => exact ⟨'.', ['*'], rfl, by decide⟩
      | cons d cs =>
        refine ⟨d, cs ++ ['.', '*'], rfl, ?_⟩
        rintro rfl
        exact absurd (h.2 _ List.mem_cons_self) (by decide)
    rw [List.cons_append, hd, parse, atom_plain h.1, ← hd, ih]
    simp [hstar]

end Regex

end CqrsSaga
