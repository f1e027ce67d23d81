import Mathlib.Algebra.BigOperators.Group.List.Basic
import Mathlib.Tactic.Abel
import CqrsSaga.Async.Protocol

/-!
# Accounts

Some things a system does in two places: a message is announced here and stored there, a row is
written and then told of.  An account says what has been charged in a world and what has been paid
for it, and what activities of each kind are to pay.  If whatever an operation pays, charges or
hands on to others adds up to what its activity has to pay less, then at any time what has been
paid, what is still owed and what has been lost make up what was charged.  So at rest everything is
paid that has not been lost.

## Main definitions

* `Account` — what has been paid, what has been charged, and what activities are to pay.
* `Account.Turns` — what an operation turns a debt into.
* `Account.protocol` — the debts of the activities as a protocol.

## Main results

* `Account.perform_triple`, `Account.only_triple` — the debt of an activity along its program.
* `Account.covered` — **nothing is paid that was not charged.**
* `Account.settled` — **at rest, whatever was charged is paid or lost.**
-/

namespace CqrsSaga

variable {S : Interface} {M : Machine S}

/-- An account of a system. -/
structure Account (sys : System M) (G : Type) where
  /-- What has been paid. -/
  paid : M.World → G
  /-- What has been charged. -/
  charged : M.World → G
  /-- What an activity is to pay from its start on. -/
  due : sys.Tag → G
  /-- Whether something may be lost. -/
  lossy : Prop
  /-- What is known of an operation that is about to be performed. -/
  can : M.World → ℕ → S.Op → M.Choice → Prop

namespace Account

variable {sys : System M} {G : Type} [AddCommMonoid G] (A : Account sys G)

/-- The amount may be lost. -/
def Waived (x : G) : Prop := x = 0 ∨ A.lossy

/-- With these debts open, the account balances. -/
def Balanced (w : M.World) (debts : G) : Prop :=
  ∃ l, A.Waived l ∧ A.paid w + debts + l = A.charged w

/-- What was done turns the debt `x` into `y`: what is paid and handed on makes up for the
difference, and for what is charged. -/
def Turns (x : G) (w w' : M.World) (ts : List M.Task) (y : G) : Prop :=
  ∃ p c l, A.Waived l ∧ A.paid w' = A.paid w + p ∧ A.charged w' = A.charged w + c ∧
    p + ((ts.filterMap sys.spawned).map A.due).sum + y + l = x + c

/-- The debts of the activities as a ghost state. -/
def protocol : Protocol sys where
  Ghost := List G
  Inv w g := A.Balanced w g.sum
  Mono _ _ _ _ := True
  Keep j _ g _ g' := g'[j]? = g[j]?
  CanRun w _ i o c := A.can w i o c
  Assert _ _ _ _ := True
  Fits g l := g.length = l.length
  Born i t _ g := g[i]? = some (A.due t)
  Post i _ _ _ g := ∃ x, g[i]? = some x ∧ A.Waived x
  mono_refl _ _ := trivial
  mono_trans _ _ := trivial
  keep_refl _ _ _ := rfl
  keep_trans h h' := h'.trans h

/-- Activity `i` owes an amount with the property `Q`. -/
def Owes {G : Type} (i : ℕ) (Q : G → Prop) (_ : M.World) (g : List G) : Prop :=
  ∃ x, g[i]? = some x ∧ Q x

variable {A} {i : ℕ} {w w' : M.World} {x y : G} {g : List G} {ts : List M.Task}

theorem waived_zero : A.Waived 0 := Or.inl rfl

theorem Waived.add (hx : A.Waived x) (hy : A.Waived y) : A.Waived (x + y) := by
  rcases hx with rfl | h
  · rw [zero_add]
    exact hy
  · exact Or.inr h

/-- What is done without a debt can be done with any. -/
theorem Turns.frame (h : A.Turns 0 w w' ts 0) (x : G) : A.Turns x w w' ts x := by
  obtain ⟨p, c, l, hl, hp, hc, heq⟩ := h
  refine ⟨p, c, l, hl, hp, hc, ?_⟩
  calc p + ((ts.filterMap sys.spawned).map A.due).sum + x + l
      = p + ((ts.filterMap sys.spawned).map A.due).sum + 0 + l + x := by abel
    _ = x + c := by rw [heq, zero_add, add_comm]

/-- What is done without being counted. -/
theorem Turns.idle (hp : A.paid w' = A.paid w) (hc : A.charged w' = A.charged w)
    (hts : ((ts.filterMap sys.spawned).map A.due).sum = 0) (x : G) : A.Turns x w w' ts x := by
  refine ⟨0, 0, 0, waived_zero, by rw [hp, add_zero], by rw [hc, add_zero], ?_⟩
  rw [hts]
  abel

theorem owes_stable (i : ℕ) (Q : G → Prop) : A.protocol.Stable i (Owes i Q) := by
  intro w g w' g' _ hk _ h
  obtain ⟨x, hx, hq⟩ := h
  exact ⟨x, hk.trans hx, hq⟩

omit [AddCommMonoid G] in
theorem Owes.mono {Q Q' : G → Prop} (h : Owes i Q w g) (hQ : ∀ x, Q x → Q' x) : Owes i Q' w g := by
  obtain ⟨x, hx, hq⟩ := h
  exact ⟨x, hx, hQ x hq⟩

/-- The sum of all debts when one of them changes. -/
theorem exists_rest (h : g[i]? = some x) : ∃ r, g.sum = r + x ∧ ∀ y, (g.set i y).sum = r + y := by
  obtain ⟨hlt, hx⟩ := List.getElem?_eq_some_iff.mp h
  refine ⟨(g.take i).sum + (g.drop (i + 1)).sum, ?_, fun y => ?_⟩
  · rw [← List.sum_take_add_sum_drop g (i + 1), List.sum_take_succ g i hlt, hx]
    abel
  · rw [List.sum_set, if_pos hlt]
    abel

/-- What an operation has done is accounted for. -/
theorem Turns.settles {l : List sys.Tag} {Q : G → Prop} (h : A.Turns x w w' ts y)
    (hI : A.protocol.Inv w g) (hx : g[i]? = some x) (hf : A.protocol.Fits g l) (hy : Q y) :
    A.protocol.Settles i l w g w' ts (Owes i Q) := by
  obtain ⟨p, c, m, hm, hp, hc, heq⟩ := h
  obtain ⟨n, hn, hbal⟩ := hI
  have hlen : g.length = l.length := hf
  have hlt : i < g.length := (List.getElem?_eq_some_iff.mp hx).1
  set new := (ts.filterMap sys.spawned).map A.due with hnew
  have hold : ∀ j, j < g.length → (g.set i y ++ new)[j]? = (g.set i y)[j]? := fun j hj =>
    List.getElem?_append_left (by rwa [List.length_set])
  refine ⟨g.set i y ++ new, ⟨m + n, hm.add hn, ?_⟩, trivial, fun j hj hne => ?_, ?_,
    fun k t ht => ?_, y, ?_, hy⟩
  · -- the debts add up as before
    obtain ⟨r, hr, hset⟩ := exists_rest hx
    calc A.paid w' + (g.set i y ++ new).sum + (m + n)
        = A.paid w + r + n + (p + new.sum + y + m) := by
          rw [hp, List.sum_append, hset]
          abel
      _ = A.paid w + (r + x) + n + c := by
          rw [heq]
          abel
      _ = A.charged w' := by rw [← hr, hbal, hc]
  · change (g.set i y ++ new)[j]? = g[j]?
    rw [hold j (hlen ▸ hj), List.getElem?_set_ne (Ne.symm hne)]
  · show (g.set i y ++ new).length = (l ++ ts.filterMap sys.spawned).length
    rw [List.length_append, List.length_append, List.length_set, hlen, hnew, List.length_map]
  · show (g.set i y ++ new)[l.length + k]? = some (A.due t)
    rw [List.getElem?_append_right (by rw [List.length_set]; omega), List.length_set, hlen,
      Nat.add_sub_cancel_left, hnew, List.getElem?_map, ht, Option.map_some]
  · rw [hold i hlt, List.getElem?_set_self hlt]

/-! ### Programs -/

/-- **The debt of an activity that performs an operation.** -/
theorem perform_triple {o : S.Op} {P : G → Prop} {Q : Except S.Err (S.Val o) → G → Prop}
    (h : ∀ w c w' r ts x, A.can w i o c → M.exec w i o c = some (w', r, ts) → P x →
      ∃ y, Q r y ∧ A.Turns x w w' ts y) :
    A.protocol.Triple i (Owes i P) (Async.perform o) fun r => Owes i (Q r) := by
  refine .perform (owes_stable i P) (fun r => owes_stable i (Q r)) fun w g hI hw => ⟨trivial, ?_⟩
  intro c w' r ts hcan he l _ hf
  obtain ⟨x, hx, hp⟩ := hw
  obtain ⟨y, hq, hturn⟩ := h w c w' r ts x hcan he hp
  exact hturn.settles hI hx hf hq

/-- The operation concerns the account of nobody. -/
def Even (A : Account sys G) (o : S.Op) : Prop :=
  ∀ w i c w' r ts, A.can w i o c → M.exec w i o c = some (w', r, ts) → A.Turns 0 w w' ts 0

/-- A program all of whose operations are even leaves its debt as it is. -/
theorem only_triple {α : Type} {p : Async S α} (hp : p.Only A.Even) (Q : G → Prop) :
    A.protocol.Triple i (Owes i Q) p fun _ => Owes i Q := by
  intro w g _ hw
  refine Protocol.wp_of_only (owes_stable i Q) (fun o w g ho hI hw => ⟨trivial, ?_⟩) hp hw
  intro c w' r ts hcan he l _ hf
  obtain ⟨x, hx, hq⟩ := hw
  exact ((ho w i c w' r ts hcan he).frame x).settles hI hx hf hq

/-! ### Runs -/

variable {init : M.World → Prop} {allowed : Pool sys → Action sys → Prop}

/-- **An account holds** if nothing is charged in the beginning or as time passes, what is started
from outside owes nothing, and every program pays what it is to pay. -/
theorem sound (hinit : ∀ w, init w → A.paid w = A.charged w)
    (hstart : ∀ p t, allowed p (.start t) → A.due t = 0)
    (htick : ∀ w d, A.paid (M.elapse w d) = A.paid w ∧ A.charged (M.elapse w d) = A.charged w)
    (hcan : ∀ p i c t o k, allowed p (.run i c) → p.acts[i]? = some ⟨t, .await o k⟩ →
      A.can p.world i o c)
    (hbody : ∀ i t, A.protocol.Triple i (Owes i fun x => x = A.due t) (sys.body t) fun _ =>
      Owes i A.Waived) : A.protocol.Sound init allowed where
  init w hw := ⟨[], ⟨0, waived_zero, by rw [List.sum_nil, add_zero, add_zero, hinit w hw]⟩, rfl⟩
  start p t (g : List G) ha hI hf := by
    have hlen : g.length = p.tags.length := hf
    have hacts : p.tags.length = p.acts.length := List.length_map _
    refine ⟨g ++ [A.due t], ?_, trivial, fun j hj => ?_, ?_, ?_⟩
    · show A.Balanced p.world (g ++ [A.due t]).sum
      rw [List.sum_append, List.sum_singleton, hstart p t ha, add_zero]
      exact hI
    · exact List.getElem?_append_left (by omega)
    · show (g ++ [A.due t]).length = (p.tags ++ [t]).length
      rw [List.length_append, List.length_append, hlen, List.length_singleton,
        List.length_singleton]
    · show (g ++ [A.due t])[p.acts.length]? = some (A.due t)
      rw [← hacts, ← hlen, List.getElem?_concat_length]
  tick p d g _ hI := by
    obtain ⟨hp, hc⟩ := htick p.world d
    obtain ⟨l, hl, heq⟩ := hI
    exact ⟨⟨l, hl, by rw [hp, hc, heq]⟩, trivial, fun _ => rfl⟩
  canRun p i c t o k _ ha hi _ := hcan p i c t o k ha hi
  body i t w g hb hI := hbody i t w g hI ⟨_, hb, rfl⟩

/-- **Nothing is paid that was not charged.** -/
theorem covered {p : Pool sys} (h : A.protocol.Holds p g) :
    ∃ l, A.paid p.world + l = A.charged p.world := by
  obtain ⟨l, -, heq⟩ := h.inv
  exact ⟨g.sum + l, by rw [← add_assoc, heq]⟩

/-- **At rest, whatever was charged is paid or lost.** -/
theorem settled {p : Pool sys} (h : A.protocol.Holds p g) (hq : p.Quiescent) :
    ∃ l, A.Waived l ∧ A.paid p.world + l = A.charged p.world := by
  obtain ⟨l, hl, heq⟩ := h.inv
  have hfits : g.length = p.acts.length := by
    have hlen : g.length = p.tags.length := h.fits
    rw [hlen, Pool.tags, List.length_map]
  have hwaived : ∀ x ∈ g, A.Waived x := by
    intro x hx
    obtain ⟨j, hlt, rfl⟩ := List.getElem_of_mem hx
    have hlt' : j < p.acts.length := hfits ▸ hlt
    have ha : p.acts[j]? = some p.acts[j] := List.getElem?_eq_getElem hlt'
    obtain ⟨r, hr⟩ := Async.result?_isSome_of_awaited? (hq _ (List.mem_of_getElem? ha))
    obtain ⟨y, hy, hwy⟩ := h.post ha hr
    rw [List.getElem?_eq_getElem hlt, Option.some.injEq] at hy
    rwa [hy]
  have hsum : A.Waived g.sum := by
    clear heq h hfits
    induction g with
    | nil => exact waived_zero
    | cons x g ih =>
      rw [List.sum_cons]
      exact (hwaived x List.mem_cons_self).add
        (ih fun y hy => hwaived y (List.mem_cons_of_mem _ hy))
  exact ⟨g.sum + l, hsum.add hl, by rw [← add_assoc, heq]⟩

end Account

end CqrsSaga
