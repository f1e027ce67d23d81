import CqrsSaga.App.Calls
import CqrsSaga.Async.Solo

/-!
# Calls with nothing else going on

Nobody else moves, and no operation fails: what a call is meant to do, it does then.  What it hands
over to be done later is not looked at.

## Main definitions

* `undisturbed` — these circumstances.
* `unattended` — the same, with time passing.

## Main results

* `Undisturbed.call_ends`, `Undisturbed.query_ends` — one operation, and one that only reads.
* `Unattended.call_ends`, `Unattended.certain_ends` — one operation, and one that leaves nothing to
  chance.
-/

namespace CqrsSaga

/-- Nobody else moves, and nothing fails. -/
def undisturbed : Solo app Unit where
  Aside := fun w w' => w' = w
  Can := fun _ _ c => c.fault = none
  note := fun _ _ => []

instance (w : World) (o : Op) (c : Choice) : Decidable (undisturbed.Can w o c) :=
  inferInstanceAs (Decidable (c.fault = none))

namespace Undisturbed

open Solo

variable {i : ℕ} {l : List Unit} {w : World}

/-- One operation. -/
theorem call_ends {o : Op} {Q : List Unit → Except Err (Op.Val o) → World → Prop}
    (hgo : ∃ c s, c.fault = none ∧ w.perform i c o = some s)
    (h : ∀ c v r ts, w.perform i c o = some (v, r, ts) → Q l r v) :
    undisturbed.Ends i Q (call o) l w := by
  refine .perform fun w' hw => ?_
  obtain rfl : w' = w := hw
  obtain ⟨c, s, hc, hs⟩ := hgo
  refine ⟨⟨c, s, hc, (World.exec_eq_perform hc).trans hs⟩, fun c v r ts hc he => ?_⟩
  rw [show undisturbed.note o r = [] from rfl, List.append_nil]
  exact h c v r ts ((World.exec_eq_perform hc).symm.trans he)

/-- One operation that always answers the same. -/
theorem query_ends {o : Op} {Q : List Unit → Except Err (Op.Val o) → World → Prop} {v : World}
    {r : Except Err (Op.Val o)} {ts : List Task} (hv : ∀ c, w.perform i c o = some (v, r, ts))
    (h : Q l r v) : undisturbed.Ends i Q (call o) l w := by
  refine call_ends ⟨{}, _, rfl, hv {}⟩ fun c v' r' ts' hp => ?_
  rw [hv c] at hp
  simp only [Option.some.injEq, Prod.mk.injEq] at hp
  obtain ⟨rfl, rfl, -⟩ := hp
  exact h

end Undisturbed

/-! ### While time passes -/

/-- Nobody else moves, nothing fails, and time passes. -/
def unattended : Solo app Unit where
  Aside := fun w w' => ∃ clock, w' = { w with clock }
  Can := fun _ _ c => c.fault = none
  note := fun _ _ => []

instance (w : World) (o : Op) (c : Choice) : Decidable (unattended.Can w o c) :=
  inferInstanceAs (Decidable (c.fault = none))

namespace Unattended

open Solo

variable {i : ℕ} {l : List Unit} {w : World}

/-- One operation, whenever it is performed. -/
theorem call_ends {o : Op} {Q : List Unit → Except Err (Op.Val o) → World → Prop}
    (hgo : ∀ clock, ∃ c s, c.fault = none ∧ World.perform { w with clock } i c o = some s)
    (h : ∀ clock c v r ts, World.perform { w with clock } i c o = some (v, r, ts) → Q l r v) :
    unattended.Ends i Q (call o) l w := by
  refine .perform fun w' hw => ?_
  obtain ⟨clock, rfl⟩ := hw
  obtain ⟨c, s, hc, hs⟩ := hgo clock
  refine ⟨⟨c, s, hc, (World.exec_eq_perform hc).trans hs⟩, fun c v r ts hc he => ?_⟩
  rw [show unattended.note o r = [] from rfl, List.append_nil]
  exact h clock c v r ts ((World.exec_eq_perform hc).symm.trans he)

/-- One operation whose outcome depends on nothing but the time. -/
theorem certain_ends {o : Op} {Q : List Unit → Except Err (Op.Val o) → World → Prop} {v : ℕ → World}
    {r : ℕ → Except Err (Op.Val o)} {ts : List Task}
    (hv : ∀ clock c, World.perform { w with clock } i c o = some (v clock, r clock, ts))
    (h : ∀ clock, Q l (r clock) (v clock)) : unattended.Ends i Q (call o) l w := by
  refine call_ends (fun clock => ⟨{}, _, rfl, hv clock {}⟩) fun clock c v' r' ts' hp => ?_
  rw [hv clock c] at hp
  simp only [Option.some.injEq, Prod.mk.injEq] at hp
  obtain ⟨rfl, rfl, -⟩ := hp
  exact h clock

end Unattended

end CqrsSaga
