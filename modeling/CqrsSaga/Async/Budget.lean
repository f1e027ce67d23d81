import CqrsSaga.Async.Pool

/-!
# How often programs perform an operation

A bound on how often a program comes to perform one of certain operations, whatever it is told, and
what it says about a run: of all operations performed in it, no activity accounts for more of them
than its program allows.

## Main definitions

* `Async.AtMost` — the program performs at most so many operations of `P`.
* `Pool.Ran` — a run, with the operations performed in it and who performed them.
* `Pool.times` — how many of them are operations of `P` performed by one activity.

## Main results

* `Async.AtMost.bind` — the bounds of programs run one after the other add up.
* `Pool.Ran.times_le` — **in a run, every activity stays within the bound of its program.**
-/

namespace CqrsSaga

variable {S : Interface}

namespace Async

/-- Whatever it is told, the program performs at most `n` operations of `P`. -/
def AtMost {α : Type} (P : S.Op → Bool) : ℕ → Async S α → Prop
  | _, ret _ => True
  | _, throw _ => True
  | n, await o k => (P o).toNat ≤ n ∧ ∀ r, AtMost P (n - (P o).toNat) (k r)

namespace AtMost

variable {α β : Type} {P : S.Op → Bool} {m n : ℕ} {p : Async S α}

theorem mono (h : p.AtMost P m) (hn : m ≤ n) : p.AtMost P n := by
  induction p generalizing m n with
  | ret a => exact trivial
  | throw e => exact trivial
  | await o k ih => exact ⟨Nat.le_trans h.1 hn, fun r => ih r (h.2 r) (Nat.sub_le_sub_right hn _)⟩

/-- A program without operations of `P`. -/
theorem of_only (h : p.Only fun o => P o = false) : p.AtMost P n := by
  induction p generalizing n with
  | ret a => exact trivial
  | throw e => exact trivial
  | await o k ih =>
    obtain ⟨ho, hk⟩ := h
    exact ⟨by simp [ho], fun r => ih r (hk r)⟩

theorem perform {o : S.Op} (h : (P o).toNat ≤ n) : (perform o).AtMost P n := by
  refine ⟨h, fun r => ?_⟩
  cases r with
  | ok v => exact trivial
  | error e => exact trivial

/-- Sequencing: the bounds add up. -/
theorem bind {f : α → Async S β} (hp : p.AtMost P m) (hf : ∀ a, (f a).AtMost P n) :
    (p.bind f).AtMost P (m + n) := by
  induction p generalizing m with
  | ret a => exact (hf a).mono (Nat.le_add_left n m)
  | throw e => exact trivial
  | await o k ih =>
    refine ⟨Nat.le_trans hp.1 (Nat.le_add_right m n), fun r => ?_⟩
    rw [Nat.sub_add_comm hp.1]
    exact ih r (hp.2 r)

end AtMost

end Async

namespace Pool

variable {M : Machine S} {sys : System M}

/-- The operation that is performed in a step, and who performs it. -/
def performs (p : Pool sys) : Action sys → Option (ℕ × S.Op)
  | .run i _ => (p.awaits i).map fun o => (i, o)
  | _ => none

/-- A run, with the operations performed in it. -/
inductive Ran (allowed : Pool sys → Action sys → Prop) (p : Pool sys) :
    List (ℕ × S.Op) → Pool sys → Prop
  | refl : Ran allowed p [] p
  | step {l : List (ℕ × S.Op)} {q q' : Pool sys} {a : Action sys} : Ran allowed p l q →
      allowed q a → q.next a = some q' → Ran allowed p (l ++ (q.performs a).toList) q'

variable {allowed : Pool sys → Action sys → Prop} {p q : Pool sys} {l : List (ℕ × S.Op)}

theorem Ran.runs (h : Ran allowed p l q) : Runs allowed p q := by
  induction h with
  | refl => exact Relation.ReflTransGen.refl
  | step _ ha hn ih => exact ih.tail ⟨_, ha, hn⟩

theorem Runs.ran (h : Runs allowed p q) : ∃ l, Ran allowed p l q := by
  induction h with
  | refl => exact ⟨[], .refl⟩
  | tail _ hs ih =>
    obtain ⟨l, hl⟩ := ih
    obtain ⟨a, ha, hn⟩ := hs
    exact ⟨_, hl.step ha hn⟩

/-- How many operations of `P` activity `i` has performed. -/
def times (P : S.Op → Bool) (i : ℕ) (l : List (ℕ × S.Op)) : ℕ :=
  l.countP fun x => decide (x.1 = i) && P x.2

variable {P : S.Op → Bool} {i j : ℕ} {o : S.Op}

@[simp] theorem times_nil : times P i [] = 0 := rfl

@[simp] theorem times_append (l l' : List (ℕ × S.Op)) :
    times P i (l ++ l') = times P i l + times P i l' := List.countP_append

theorem times_self : times P i [(i, o)] = (P o).toNat := by
  cases h : P o <;> simp [times, h]

theorem times_of_ne (h : j ≠ i) : times P i [(j, o)] = 0 := by simp [times, h]

/-- What an activity may still perform is what its program allows, less what it has performed. -/
def Within (P : S.Op → Bool) (n : sys.Tag → ℕ) (l : List (ℕ × S.Op)) (q : Pool sys) : Prop :=
  (∀ i, q.acts.length ≤ i → times P i l = 0) ∧
    ∀ (i : ℕ) (a : Activity sys), q.acts[i]? = some a →
      ∃ m, times P i l + m ≤ n a.tag ∧ a.prog.AtMost P m

variable {n : sys.Tag → ℕ}

theorem Within.started (hn : ∀ t, (sys.body t).AtMost P (n t)) {acts : List (Activity sys)}
    {w w' : M.World} (h : Within P n l ⟨w, acts⟩) (ts : List sys.Tag) :
    Within P n l ⟨w', acts ++ ts.map sys.begin⟩ := by
  obtain ⟨hfresh, hacts⟩ := h
  refine ⟨fun i hi => hfresh i ?_, fun i a hi => ?_⟩
  · simp only [List.length_append] at hi
    exact Nat.le_trans (Nat.le_add_right _ _) hi
  · rcases Nat.lt_or_ge i acts.length with hlt | hge
    · exact hacts i a (List.getElem?_append_left hlt ▸ hi)
    · -- it has just been started, and has performed nothing
      dsimp only at hi
      rw [List.getElem?_append_right hge, List.getElem?_map, Option.map_eq_some_iff] at hi
      obtain ⟨t, -, rfl⟩ := hi
      exact ⟨n t, by rw [hfresh i hge, Nat.zero_add]; exact Nat.le_refl _, hn t⟩

/-- The invariant of a run. -/
theorem Ran.within (hn : ∀ t, (sys.body t).AtMost P (n t)) {w : M.World}
    (h : Ran allowed ⟨w, []⟩ l q) : Within P n l q := by
  induction h with
  | refl => exact ⟨fun i _ => rfl, fun i a hi => by simp at hi⟩
  | @step l q q' act _ _ hnext ih =>
    cases act with
    | start t =>
      obtain rfl := Option.some.inj hnext
      simpa [performs] using ih.started hn [t]
    | tick d =>
      obtain rfl := Option.some.inj hnext
      simpa [performs] using ih.started hn []
    | run j c =>
      obtain ⟨t, o, k, w', r, ts, hj, -, rfl⟩ := next_run hnext
      have hdone : q.performs (.run j c) = some (j, o) := by
        simp [performs, awaits, hj, Async.awaited?]
      rw [hdone, Option.toList_some]
      have hlt := (List.getElem?_eq_some_iff.mp hj).1
      refine Within.started (w := w') hn ⟨fun i hi => ?_, fun i a hi => ?_⟩ _
      · simp only [List.length_set] at hi
        rw [times_append, ih.1 i hi, times_of_ne (Nat.ne_of_lt (Nat.lt_of_lt_of_le hlt hi))]
      · -- the activity that ran has paid for its operation, the others for nothing
        by_cases hij : i = j
        · subst hij
          dsimp only at hi
          rw [List.getElem?_set_self hlt, Option.some.injEq] at hi
          subst hi
          obtain ⟨m, hm, ho, hk⟩ := ih.2 i _ hj
          refine ⟨m - (P o).toNat, ?_, hk r⟩
          rw [times_append, times_self]
          dsimp only at hm ⊢
          omega
        · dsimp only at hi
          rw [List.getElem?_set_ne (Ne.symm hij)] at hi
          obtain ⟨m, hm, hprog⟩ := ih.2 i a hi
          exact ⟨m, by rw [times_append, times_of_ne (Ne.symm hij)]; exact hm, hprog⟩

/-- **In a run, every activity stays within the bound of its program.** -/
theorem Ran.times_le (hn : ∀ t, (sys.body t).AtMost P (n t)) {w : M.World}
    (h : Ran allowed ⟨w, []⟩ l q) {a : Activity sys} (hi : q.acts[i]? = some a) :
    times P i l ≤ n a.tag := by
  obtain ⟨m, hm, -⟩ := (h.within hn).2 i a hi
  exact Nat.le_trans (Nat.le_add_right _ _) hm

end Pool

end CqrsSaga
