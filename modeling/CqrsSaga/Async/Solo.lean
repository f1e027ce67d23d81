import CqrsSaga.Async.Pool

/-!
# Programs while the others stand aside

A call is often looked at by itself: nobody else touches what it works on, some of its operations
may fail, and what counts is what it leaves and which calls it has made on the way.  A `Solo` says
what the others may still do between two operations, which failures are looked at and what is noted
of each operation.  `Solo.Ends` then is a weakest precondition for total correctness: the program
never gets stuck, and however it ends, `Q` holds of what was noted, of the result and of the world.

## Main definitions

* `Solo` — the circumstances of a call.
* `Solo.Ends` — the program ends, and `Q` holds.
* `Solo.play` — one way a program may take.

## Main results

* `Solo.Ends.bind`, `handle`, `andFinally`, `perform` — the rules of the combinators.
* `Solo.Ends.of_play` — `Q` holds at the end of every way a program may take.
-/

namespace CqrsSaga

variable {S : Interface} {M : Machine S}

/-- The circumstances of a call, of which a list of `β` is kept. -/
structure Solo (M : Machine S) (β : Type) where
  /-- What others may do between two operations. -/
  Aside : M.World → M.World → Prop
  /-- What an operation may meet. -/
  Can : M.World → S.Op → M.Choice → Prop
  /-- What is noted of an operation and its answer. -/
  note : (o : S.Op) → Except S.Err (S.Val o) → List β

namespace Solo

variable {β α γ : Type} (E : Solo M β)

/-- **The weakest precondition**: activity `i` can always go on, and when the program has ended `Q`
holds of what was noted, of the result and of the world. -/
def Ends (i : ℕ) (Q : List β → Except S.Err α → M.World → Prop) :
    Async S α → List β → M.World → Prop
  | .ret a, l, w => Q l (.ok a) w
  | .throw e, l, w => Q l (.error e) w
  | .await o k, l, w => ∀ w', E.Aside w w' →
      (∃ c s, E.Can w' o c ∧ M.exec w' i o c = some s) ∧
      ∀ c v r ts, E.Can w' o c → M.exec w' i o c = some (v, r, ts) →
        Ends i Q (k r) (l ++ E.note o r) v

namespace Ends

variable {E} {i : ℕ} {p : Async S α} {l : List β} {w : M.World}
  {Q Q' : List β → Except S.Err α → M.World → Prop}

theorem mono (hQ : ∀ l r w, Q l r w → Q' l r w) (h : E.Ends i Q p l w) : E.Ends i Q' p l w := by
  induction p generalizing l w with
  | ret a => exact hQ _ _ _ h
  | throw e => exact hQ _ _ _ h
  | await o k ih =>
    intro w' hw
    obtain ⟨hgo, hall⟩ := h w' hw
    exact ⟨hgo, fun c v r ts hc he => ih r (hall c v r ts hc he)⟩

/-- Sequencing. -/
theorem bind {f : α → Async S γ} {Q : List β → Except S.Err γ → M.World → Prop}
    (R : List β → Except S.Err α → M.World → Prop) (h : E.Ends i R p l w)
    (hf : ∀ l a w, R l (.ok a) w → E.Ends i Q (f a) l w)
    (he : ∀ l e w, R l (.error e) w → Q l (.error e) w) : E.Ends i Q (p.bind f) l w := by
  induction p generalizing l w with
  | ret a => exact hf _ _ _ h
  | throw e => exact he _ _ _ h
  | await o k ih =>
    intro w' hw
    obtain ⟨hgo, hall⟩ := h w' hw
    exact ⟨hgo, fun c v r ts hc hx => ih r (hall c v r ts hc hx)⟩

/-- The program returns, and `R` holds of what it returns. -/
def Returns (R : List β → α → M.World → Prop) (l : List β) (r : Except S.Err α) (w : M.World) :
    Prop :=
  ∃ a, r = .ok a ∧ R l a w

/-- Sequencing, after a program that does not throw. -/
theorem next {f : α → Async S γ} {Q : List β → Except S.Err γ → M.World → Prop}
    {R : List β → α → M.World → Prop} (h : E.Ends i (Returns R) p l w)
    (hf : ∀ l a w, R l a w → E.Ends i Q (f a) l w) : E.Ends i Q (p.bind f) l w := by
  refine bind _ h ?_ ?_
  · rintro l a w ⟨a', ha, hR⟩
    obtain rfl := Except.ok.inj ha
    exact hf l a w hR
  · rintro l e w ⟨a, ha, -⟩
    exact nomatch ha

/-- `try … catch`. -/
theorem handle {f : S.Err → Async S α} (R : List β → Except S.Err α → M.World → Prop)
    (h : E.Ends i R p l w) (hf : ∀ l e w, R l (.error e) w → E.Ends i Q (f e) l w)
    (ha : ∀ l a w, R l (.ok a) w → Q l (.ok a) w) : E.Ends i Q (p.handle f) l w := by
  induction p generalizing l w with
  | ret a => exact ha _ _ _ h
  | throw e => exact hf _ _ _ h
  | await o k ih =>
    intro w' hw
    obtain ⟨hgo, hall⟩ := h w' hw
    exact ⟨hgo, fun c v r ts hc hx => ih r (hall c v r ts hc hx)⟩

/-- `try … finally`. -/
theorem andFinally {q : Async S γ} (R : List β → Except S.Err α → M.World → Prop)
    (h : E.Ends i R p l w)
    (hq : ∀ l r w, R l r w → E.Ends i (fun l s w => match s with
      | .ok _ => Q l r w
      | .error e => Q l (.error e) w) q l w) : E.Ends i Q (p.andFinally q) l w := by
  induction p generalizing l w with
  | ret a => exact bind _ (hq _ _ _ h) (fun _ _ _ hw => hw) fun _ _ _ hw => hw
  | throw e => exact bind _ (hq _ _ _ h) (fun _ _ _ hw => hw) fun _ _ _ hw => hw
  | await o k ih =>
    intro w' hw
    obtain ⟨hgo, hall⟩ := h w' hw
    exact ⟨hgo, fun c v r ts hc hx => ih r (hall c v r ts hc hx)⟩

/-- One operation. -/
theorem perform {o : S.Op} {Q : List β → Except S.Err (S.Val o) → M.World → Prop}
    (h : ∀ w', E.Aside w w' → (∃ c s, E.Can w' o c ∧ M.exec w' i o c = some s) ∧
      ∀ c v r ts, E.Can w' o c → M.exec w' i o c = some (v, r, ts) → Q (l ++ E.note o r) r v) :
    E.Ends i Q (Async.perform o) l w := by
  intro w' hw
  obtain ⟨hgo, hall⟩ := h w' hw
  refine ⟨hgo, fun c v r ts hc hx => ?_⟩
  cases r with
  | ok a => exact hall c v _ ts hc hx
  | error e => exact hall c v _ ts hc hx

end Ends

/-! ### Playing a program -/

/-- The end of a program, with nobody else moving and the operations meeting these choices. -/
def play [∀ w o c, Decidable (E.Can w o c)] (i : ℕ) :
    Async S α → List M.Choice → List β → M.World → Option (List β × Except S.Err α × M.World)
  | .ret a, _, l, w => some (l, .ok a, w)
  | .throw e, _, l, w => some (l, .error e, w)
  | .await _ _, [], _, _ => none
  | .await o k, c :: cs, l, w =>
    if E.Can w o c then
      match M.exec w i o c with
      | some (v, r, _) => play i (k r) cs (l ++ E.note o r) v
      | none => none
    else none

variable {E} in
/-- **Whichever way a program takes, `Q` holds at its end.** -/
theorem Ends.of_play [∀ w o c, Decidable (E.Can w o c)] {i : ℕ} {p : Async S α} {l l' : List β}
    {w w' : M.World} {r : Except S.Err α} {cs : List M.Choice}
    {Q : List β → Except S.Err α → M.World → Prop} (hrefl : ∀ w, E.Aside w w)
    (h : E.Ends i Q p l w) (hp : E.play i p cs l w = some (l', r, w')) : Q l' r w' := by
  induction p generalizing l w cs with
  | ret a =>
    simp only [play, Option.some.injEq, Prod.mk.injEq] at hp
    obtain ⟨rfl, rfl, rfl⟩ := hp
    exact h
  | throw e =>
    simp only [play, Option.some.injEq, Prod.mk.injEq] at hp
    obtain ⟨rfl, rfl, rfl⟩ := hp
    exact h
  | await o k ih =>
    cases cs with
    | nil => simp [play] at hp
    | cons c cs =>
      rw [play] at hp
      split at hp
      · next hc =>
        cases he : M.exec w i o c with
        | none => simp [he] at hp
        | some s =>
          obtain ⟨v, a, ts⟩ := s
          simp only [he] at hp
          exact ih a ((h w (hrefl w)).2 c v a ts hc he) hp
      · simp at hp

end Solo

end CqrsSaga
