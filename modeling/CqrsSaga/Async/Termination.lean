import Mathlib.Logic.Hydra
import CqrsSaga.Async.Pool

/-!
# Work that comes to an end

How many operations a program performs may depend on what it is told, and need not be bounded: a
program that goes through rows it has read is as long as there are rows.  It ends all the same, for
it is a tree without infinite branches.  What might go on for ever is that activities start others.
Where every activity starts only such as rank below it, all the work there is comes to an end, in
whatever order it is done, unless more is brought in from outside.

The argument is that of the hydra game: an activity that moves is replaced by what is left of it
and by any number of activities that rank below it.

## Main definitions

* `Async.Rest` — what is left of a program after one operation.
* `System.Ranked` — every activity starts only such as rank below it.
* `Pool.Tame` — the activities of a pool await only what they may.

## Main results

* `Pool.cutExpand_run` — a step of an activity is a move of the hydra game.
* `System.Ranked.comes_to_rest` — **an endless run into which nothing more is brought in the end
  only lets time pass.**
* `System.Ranked.exhausts` — any pool can be brought to where no activity is allowed to move.
-/

namespace CqrsSaga

variable {S : Interface}

namespace Async

variable {α : Type}

/-- What is left of a program after one operation. -/
inductive Rest : Async S α → Async S α → Prop
  | after (o : S.Op) (k : Except S.Err (S.Val o) → Async S α) (r : Except S.Err (S.Val o)) :
      Rest (k r) (.await o k)

/-- A program has no infinite branch. -/
theorem wf_rest : WellFounded (Rest (S := S) (α := α)) := by
  constructor
  intro p
  induction p with
  | ret a => exact ⟨_, fun q h => by cases h⟩
  | throw e => exact ⟨_, fun q h => by cases h⟩
  | await o k ih =>
    constructor
    intro q h
    cases h with
    | after o k r => exact ih r

end Async

variable {M : Machine S}

/-- Every activity awaits only what it may, and starts only activities that rank below it. -/
structure System.Ranked (sys : System M) (rank : sys.Tag → ℕ) (may : sys.Tag → S.Op → Prop) :
    Prop where
  only : ∀ t, (sys.body t).Only (may t)
  below : ∀ t o w i c w' r ts, may t o → M.exec w i o c = some (w', r, ts) →
    ∀ t' ∈ ts.filterMap sys.spawned, rank t' < rank t

variable {sys : System M} {rank : sys.Tag → ℕ} {may : sys.Tag → S.Op → Prop}

namespace Pool

variable {p p' : Pool sys}

/-- The activities await only what they may. -/
def Tame (may : sys.Tag → S.Op → Prop) (p : Pool sys) : Prop :=
  ∀ a ∈ p.acts, a.prog.Only (may a.tag)

theorem Tame.next (hr : sys.Ranked rank may) (hp : p.Tame may) {a : Action sys}
    (h : p.next a = some p') : p'.Tame may := by
  cases a with
  | start t =>
    obtain rfl := Option.some.inj h
    intro b hb
    rcases List.mem_append.mp hb with hb | hb
    · exact hp b hb
    · rw [List.mem_singleton.mp hb]
      exact hr.only t
  | tick d =>
    obtain rfl := Option.some.inj h
    exact hp
  | run i c =>
    obtain ⟨t, o, k, w, r, ts, hi, -, rfl⟩ := next_run h
    intro b hb
    rcases List.mem_append.mp hb with hb | hb
    · rcases List.mem_or_eq_of_mem_set hb with hb | rfl
      · exact hp b hb
      · exact (hp _ (List.mem_of_getElem? hi)).2 r
    · obtain ⟨t', -, rfl⟩ := List.mem_map.mp hb
      exact hr.only t'

/-- The activity ranks below the other, or it is what is left of it. -/
def Lower (rank : sys.Tag → ℕ) : Activity sys → Activity sys → Prop :=
  InvImage (Prod.Lex (· < ·) Async.Rest) fun a => (rank a.tag, a.prog)

theorem wf_lower (rank : sys.Tag → ℕ) : WellFounded (Lower rank) :=
  InvImage.wf _ (Nat.lt_wfRel.wf.prod_lex Async.wf_rest)

/-- One element of a list is exchanged. -/
theorem coe_set {α : Type} {l : List α} {i : ℕ} {a : α} (h : l[i]? = some a) (b : α) :
    (↑(l.set i b) : Multiset α) + {a} = ↑l + {b} := by
  obtain ⟨hlt, rfl⟩ := List.getElem?_eq_some_iff.mp h
  have hset : (l.set i b).Perm (b :: l.eraseIdx i) := List.set_perm_cons_eraseIdx hlt b
  have hget : (l[i] :: l.eraseIdx i).Perm l := List.getElem_cons_eraseIdx_perm hlt
  calc (↑(l.set i b) : Multiset α) + {l[i]}
      = {b} + ↑(l.eraseIdx i) + {l[i]} := by
        rw [Multiset.coe_eq_coe.mpr hset, ← Multiset.cons_coe, Multiset.singleton_add]
    _ = {l[i]} + ↑(l.eraseIdx i) + {b} := by
        rw [add_comm, ← add_assoc, add_right_comm]
    _ = ↑l + {b} := by
        rw [Multiset.singleton_add, Multiset.cons_coe, Multiset.coe_eq_coe.mpr hget]

/-- **A step of an activity is a move of the hydra game.** -/
theorem cutExpand_run (hr : sys.Ranked rank may) (hp : p.Tame may) {i : ℕ} {c : M.Choice}
    (h : p.next (.run i c) = some p') :
    Relation.CutExpand (Lower rank) (↑p'.acts : Multiset (Activity sys)) ↑p.acts := by
  obtain ⟨t, o, k, w, r, ts, hi, he, rfl⟩ := next_run h
  have hmay : may t o := (hp _ (List.mem_of_getElem? hi)).1
  refine ⟨⟨t, k r⟩ ::ₘ ↑((ts.filterMap sys.spawned).map sys.begin), ⟨t, .await o k⟩, ?_, ?_⟩
  · intro b hb
    rcases Multiset.mem_cons.mp hb with rfl | hb
    · exact Prod.Lex.right _ (.after o k r)
    · obtain ⟨t', ht', rfl⟩ := List.mem_map.mp (Multiset.mem_coe.mp hb)
      exact Prod.Lex.left _ _ (hr.below t o _ i c _ r ts hmay he t' ht')
  · rw [← Multiset.coe_add, add_right_comm, coe_set hi, add_assoc, Multiset.singleton_add]

theorem wf_work (rank : sys.Tag → ℕ) :
    WellFounded (InvImage (Relation.CutExpand (Lower rank)) fun p : Pool sys => ↑p.acts) :=
  InvImage.wf _ (wf_lower rank).cutExpand

end Pool

namespace System.Ranked

variable (hr : sys.Ranked rank may)
include hr

/-- **An endless run into which nothing more is brought in the end only lets time pass.** -/
theorem comes_to_rest {f : ℕ → Pool sys} {a : ℕ → Action sys}
    (hf : ∀ n, (f n).next (a n) = some (f (n + 1))) (h0 : (f 0).Tame may) {N : ℕ}
    (hs : ∀ n ≥ N, ∀ t, a n ≠ .start t) : ∃ K, ∀ n ≥ K, ∃ d, a n = .tick d := by
  have htame : ∀ n, (f n).Tame may := by
    intro n
    induction n with
    | zero => exact h0
    | succ n ih => exact ih.next hr (hf n)
  -- of the pools from `N` on, one with the least work
  obtain ⟨-, ⟨K, hK, rfl⟩, hmin⟩ := (Pool.wf_lower rank).cutExpand.has_min
    {s | ∃ n ≥ N, s = (↑(f n).acts : Multiset (Activity sys))} ⟨_, N, Nat.le_refl N, rfl⟩
  have htick : ∀ n ≥ K, (f n).acts = (f K).acts → ∃ d, a n = .tick d := by
    intro n hn hacts
    cases ha : a n with
    | start t => exact absurd ha (hs n (Nat.le_trans hK hn) t)
    | tick d => exact ⟨d, rfl⟩
    | run i c =>
      have hcut := Pool.cutExpand_run hr (htame n) (ha ▸ hf n)
      rw [hacts] at hcut
      exact absurd hcut (hmin _ ⟨n + 1, Nat.le_trans hK (Nat.le_succ_of_le hn), rfl⟩)
  -- and with it, all activities stay as they are
  have hsame : ∀ n, (f (K + n)).acts = (f K).acts := by
    intro n
    induction n with
    | zero => rfl
    | succ n ih =>
      obtain ⟨d, hd⟩ := htick _ (Nat.le_add_right K n) ih
      have hnext := hf (K + n)
      rw [hd] at hnext
      rw [← ih, ← Nat.add_assoc, ← Option.some.inj hnext]
  refine ⟨K, fun n hn => ?_⟩
  obtain ⟨m, rfl⟩ := Nat.exists_eq_add_of_le hn
  exact htick _ hn (hsame m)

/-- Any pool can be brought to where no activity is allowed to move. -/
theorem exhausts {allowed : Pool sys → Action sys → Prop}
    (hrun : ∀ p a, allowed p a → ∃ i c, a = .run i c) {p : Pool sys} (hp : p.Tame may) :
    ∃ p', Pool.Runs allowed p p' ∧ ∀ q, ¬Pool.Step allowed p' q := by
  induction p using (Pool.wf_work rank).induction with
  | _ p ih =>
    by_cases h : ∃ q, Pool.Step allowed p q
    · obtain ⟨q, a, ha, hn⟩ := h
      obtain ⟨i, c, rfl⟩ := hrun p a ha
      obtain ⟨p', hp', hend⟩ := ih q (Pool.cutExpand_run hr hp hn) (hp.next hr hn)
      exact ⟨p', hp'.head ⟨_, ha, hn⟩, hend⟩
    · exact ⟨p, .refl, fun q hq => h ⟨q, hq⟩⟩

end System.Ranked

end CqrsSaga
