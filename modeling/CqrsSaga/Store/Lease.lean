import Mathlib.Data.List.AList
import Mathlib.Tactic.ByContra

/-!
# Leases: set-if-absent with a deadline

One server keeps, under each key, at most one entry carrying a token and a
deadline.  A client sets an entry where there is none, deletes it, or moves its
deadline, and the last two only if the entry carries the client's own token.  An
entry whose deadline has passed counts as absent.

What a client may believe about its lease is a matter of what was answered to it
in the past, so the server keeps the list of the calls it has answered, newest
first.  `grant` reads off that list until when a token is entitled to its key, and
`inSection` whether its holder has begun and not yet tried to end its critical
section.

## Main definitions

* `Lease.Entry`, `Lease.Call`, `Lease.answer` — entries, calls and how they are answered.
* `Lease.Server` — the entries and the calls answered so far.
* `Lease.grant`, `Lease.setRank`, `Lease.inSection` — what the calls of a token amount to.
* `Lease.Server.Holds` — a token is entitled to its key now.
* `Lease.Server.Ok` — the invariant tying entries to entitlements.

## Main results

* `Lease.Server.serve_ok`, `Lease.Server.Ok.later` — every call and the passing of time keep the
  invariant.
* `Lease.Server.Ok.holder_unique` — **at most one token is entitled to a key.**
* `Lease.Server.Ok.foreign` — **a call by anybody else is refused and changes nothing.**
* `Lease.Server.Ok.live_of_holds` — who is entitled to a key has the entry under it.
-/

namespace CqrsSaga

namespace Lease

/-- What is stored under a key. -/
structure Entry (τ : Type) where
  /-- Whose entry it is. -/
  token : τ
  /-- The last moment at which it is there. -/
  deadline : ℕ
  deriving DecidableEq, Repr

/-- The entries, at most one under each key. -/
abbrev Entries (κ τ : Type) := AList fun _ : κ => Entry τ

/-- What a client asks of the server. -/
inductive Call
  /-- Set an entry living for `ttl`, if there is none. -/
  | set (ttl : ℕ)
  /-- Delete the entry, if it carries the client's token. -/
  | unlock
  /-- Let the entry live for `ttl` from now, if it carries the client's token. -/
  | renew (ttl : ℕ)
  deriving DecidableEq, Repr

/-- The entry under a key, unless its deadline has passed. -/
def live {κ τ : Type} [DecidableEq κ] (t : Entries κ τ) (now : ℕ) (k : κ) : Option (Entry τ) :=
  (t.lookup k).filter fun e => decide (now ≤ e.deadline)

/-- How a call is answered, and what it leaves. -/
def answer {κ τ : Type} [DecidableEq κ] [DecidableEq τ] (t : Entries κ τ) (now : ℕ) (k : κ) (tok : τ) :
    Call → Entries κ τ × Bool
  | .set ttl =>
    if live t now k = none then (t.insert k ⟨tok, now + ttl⟩, true) else (t, false)
  | .unlock =>
    if (live t now k).map Entry.token = some tok then (t.erase k, true) else (t, false)
  | .renew ttl =>
    if (live t now k).map Entry.token = some tok then (t.insert k ⟨tok, now + ttl⟩, true)
    else (t, false)

/-- Only a set puts an entry where there was none. -/
theorem answer_lookup {κ τ : Type} [DecidableEq κ] [DecidableEq τ] {t : Entries κ τ} {k k' : κ}
    (now : ℕ) (tok : τ) {c : Call} (h : t.lookup k = none) (hc : k' = k → ∀ ttl, c ≠ .set ttl) :
    (answer t now k' tok c).1.lookup k = none := by
  have hinsert : ∀ e, k ≠ k' → (t.insert k' e).lookup k = none :=
    fun e hk => (AList.lookup_insert_ne hk).trans h
  by_cases hk : k = k'
  · subst hk
    have hlive : live t now k = none := by simp [live, h]
    cases c with
    | set ttl => exact absurd rfl (hc rfl ttl)
    | unlock => simpa [answer, hlive] using h
    | renew ttl => simpa [answer, hlive] using h
  · cases c with
    | set ttl | renew ttl =>
      simp only [answer]
      split_ifs
      · exact hinsert _ hk
      · exact h
    | unlock =>
      simp only [answer]
      split_ifs
      · exact (AList.lookup_erase_ne hk).trans h
      · exact h

/-- A call is answered, and leaves an entry under its key, going by the entry there alone. -/
theorem answer_congr {κ τ : Type} [DecidableEq κ] [DecidableEq τ] {t t' : Entries κ τ} {k : κ}
    (h : t.lookup k = t'.lookup k) (now : ℕ) (tok : τ) (c : Call) :
    (answer t now k tok c).2 = (answer t' now k tok c).2 ∧
      (answer t now k tok c).1.lookup k = (answer t' now k tok c).1.lookup k := by
  have hlive : live t now k = live t' now k := by rw [live, live, h]
  cases c with
  | set ttl | renew ttl =>
    simp only [answer, hlive]
    split_ifs
    · exact ⟨rfl, by rw [AList.lookup_insert, AList.lookup_insert]⟩
    · exact ⟨rfl, h⟩
  | unlock =>
    simp only [answer, hlive]
    split_ifs
    · exact ⟨rfl, by rw [AList.lookup_erase, AList.lookup_erase]⟩
    · exact ⟨rfl, h⟩

/-- A call leaves alone the entries under other keys. -/
theorem answer_lookup_of_ne {κ τ : Type} [DecidableEq κ] [DecidableEq τ] (t : Entries κ τ) {k k' : κ}
    (h : k' ≠ k) (now : ℕ) (tok : τ) (c : Call) :
    (answer t now k tok c).1.lookup k' = t.lookup k' := by
  cases c with
  | set ttl | renew ttl =>
    simp only [answer]
    split_ifs
    · exact AList.lookup_insert_ne h
    · rfl
  | unlock =>
    simp only [answer]
    split_ifs
    · exact AList.lookup_erase_ne h
    · rfl

/-- A call that was answered. -/
structure Record (κ τ : Type) where
  /-- When. -/
  time : ℕ
  /-- On which key. -/
  key : κ
  /-- By the client with this token. -/
  token : τ
  /-- What was asked. -/
  call : Call
  /-- Whether it was done. -/
  done : Bool

variable {κ τ : Type} [DecidableEq κ] [DecidableEq τ]

/-! ### What the calls of a token amount to -/

/-- The moment until which `tok` is entitled to `k`: the one its last successful
set or renewal promised, unless it has deleted its entry since. -/
def grant (k : κ) (tok : τ) : List (Record κ τ) → Option ℕ
  | [] => none
  | r :: rs =>
    if r.key = k ∧ r.token = tok ∧ r.done then
      match r.call with
      | .set ttl => some (r.time + ttl)
      | .renew ttl => some (r.time + ttl)
      | .unlock => none
    else grant k tok rs

/-- The position of the last successful set of `tok` on `k`, counted from the
oldest call; `0` if there is none. -/
def setRank (k : κ) (tok : τ) : List (Record κ τ) → ℕ
  | [] => 0
  | r :: rs =>
    if r.key = k ∧ r.token = tok ∧ r.done then
      match r.call with
      | .set _ => rs.length + 1
      | .renew _ => setRank k tok rs
      | .unlock => setRank k tok rs
    else setRank k tok rs

/-- The holder of `tok` has set its entry under `k` and has not yet asked for it to
be deleted. -/
def inSection (k : κ) (tok : τ) : List (Record κ τ) → Bool
  | [] => false
  | r :: rs =>
    if r.key = k ∧ r.token = tok then
      match r.call with
      | .set _ => r.done || inSection k tok rs
      | .renew _ => inSection k tok rs
      | .unlock => false
    else inSection k tok rs

theorem setRank_le (k : κ) (tok : τ) : ∀ rs : List (Record κ τ), setRank k tok rs ≤ rs.length := by
  intro rs
  induction rs with
  | nil => exact Nat.le_refl 0
  | cons r rs ih =>
    rw [setRank, List.length_cons]
    split
    · split <;> omega
    · omega

/-- Whoever is in a section was granted its lease. -/
theorem grant_of_inSection {k : κ} {tok : τ} : ∀ {rs : List (Record κ τ)},
    inSection k tok rs = true → ∃ d, grant k tok rs = some d := by
  intro rs
  induction rs with
  | nil => intro h; simp [inSection] at h
  | cons r rs ih =>
    intro h
    rw [inSection] at h
    rw [grant]
    by_cases hr : r.key = k ∧ r.token = tok
    · rw [if_pos hr] at h
      cases hd : r.done with
      | true => cases hc : r.call <;> simp_all
      | false =>
        simp only [Bool.false_eq_true, and_false, if_false]
        cases hc : r.call <;> simp_all
    · rw [if_neg hr] at h
      rw [if_neg fun hc => hr ⟨hc.1, hc.2.1⟩]
      exact ih h

/-- Whoever is in a section has set its entry. -/
theorem setRank_pos {k : κ} {tok : τ} : ∀ {rs : List (Record κ τ)},
    inSection k tok rs = true → 0 < setRank k tok rs := by
  intro rs
  induction rs with
  | nil => intro h; simp [inSection] at h
  | cons r rs ih =>
    intro h
    rw [inSection] at h
    rw [setRank]
    by_cases hr : r.key = k ∧ r.token = tok
    · rw [if_pos hr] at h
      cases hd : r.done with
      | true => cases hc : r.call <;> simp_all
      | false =>
        simp only [Bool.false_eq_true, and_false, if_false]
        cases hc : r.call <;> simp_all
    · rw [if_neg hr] at h
      rw [if_neg fun hc => hr ⟨hc.1, hc.2.1⟩]
      exact ih h

/-- A call sets the entry of one token. -/
theorem setRank_inj {k : κ} {a b : τ} : ∀ {rs : List (Record κ τ)},
    0 < setRank k a rs → setRank k a rs = setRank k b rs → a = b := by
  intro rs
  induction rs with
  | nil => intro h; simp [setRank] at h
  | cons r rs ih =>
    intro h heq
    by_cases hk : r.key = k ∧ r.done = true
    · obtain ⟨hk, hd⟩ := hk
      cases hc : r.call with
      | set ttl =>
        -- the newest entry has the highest rank, so the two tokens are its own or neither is
        have ha := setRank_le k a rs
        have hb := setRank_le k b rs
        by_cases hta : r.token = a
        · by_cases htb : r.token = b
          · exact hta.symm.trans htb
          · simp only [setRank, hk, hd, hta ▸ htb, hta, hc, true_and, and_true, if_true,
              if_false] at heq
            omega
        · by_cases htb : r.token = b
          · simp only [setRank, hk, hd, htb ▸ hta, htb, hc, true_and, and_true, if_true,
              if_false] at heq
            omega
          · simp only [setRank, hta, htb, false_and, and_false, if_false] at h heq
            exact ih h heq
      | renew ttl =>
        simp only [setRank, hc, ite_self] at h heq
        exact ih h heq
      | unlock =>
        simp only [setRank, hc, ite_self] at h heq
        exact ih h heq
    · have hne : ∀ t : τ, ¬(r.key = k ∧ r.token = t ∧ r.done = true) :=
        fun t hc => hk ⟨hc.1, hc.2.2⟩
      simp only [setRank, hne, if_false] at h heq
      exact ih h heq

/-! ### The server -/

/-- The entries, and the calls answered so far, newest first. -/
structure Server (κ τ : Type) [DecidableEq κ] [DecidableEq τ] where
  /-- The entries. -/
  entries : Entries κ τ
  /-- The calls answered so far. -/
  log : List (Record κ τ)

namespace Server

/-- The server before any call. -/
def init : Server κ τ := ⟨∅, []⟩

/-- Answer a call. -/
def serve (s : Server κ τ) (now : ℕ) (k : κ) (tok : τ) (c : Call) : Server κ τ × Bool :=
  (⟨(answer s.entries now k tok c).1, ⟨now, k, tok, c, (answer s.entries now k tok c).2⟩ :: s.log⟩,
    (answer s.entries now k tok c).2)

@[simp] theorem serve_log (s : Server κ τ) (now : ℕ) (k : κ) (tok : τ) (c : Call) :
    (s.serve now k tok c).1.log =
      ⟨now, k, tok, c, (answer s.entries now k tok c).2⟩ :: s.log := rfl

@[simp] theorem serve_entries (s : Server κ τ) (now : ℕ) (k : κ) (tok : τ) (c : Call) :
    (s.serve now k tok c).1.entries = (answer s.entries now k tok c).1 := rfl

@[simp] theorem serve_done (s : Server κ τ) (now : ℕ) (k : κ) (tok : τ) (c : Call) :
    (s.serve now k tok c).2 = (answer s.entries now k tok c).2 := rfl

/-- A call does not end the sections of other tokens. -/
theorem inSection_serve_of_ne (s : Server κ τ) (now : ℕ) {k k' : κ} {tok tok' : τ} (c : Call)
    (h : tok ≠ tok') :
    inSection k' tok' (s.serve now k tok c).1.log = inSection k' tok' s.log := by
  simp [inSection, h]

/-- A successful set begins a section. -/
theorem inSection_serve_set {s : Server κ τ} {now : ℕ} {k : κ} {tok : τ} {ttl : ℕ}
    (h : (s.serve now k tok (.set ttl)).2 = true) :
    inSection k tok (s.serve now k tok (.set ttl)).1.log = true := by
  rw [serve_done] at h
  simp [inSection, h]

/-- `tok` is entitled to `k` now: it was granted, was not given up, and has not run out. -/
def Holds (s : Server κ τ) (now : ℕ) (k : κ) (tok : τ) : Prop :=
  ∃ d, grant k tok s.log = some d ∧ now ≤ d

/-- The invariant tying the entries to the entitlements. -/
structure Ok (s : Server κ τ) (now : ℕ) : Prop where
  /-- A running entitlement is backed by the entry. -/
  backed : ∀ k tok d, grant k tok s.log = some d → now ≤ d → s.entries.lookup k = some ⟨tok, d⟩
  /-- The entry belongs to the last token that was set. -/
  last : ∀ k e, s.entries.lookup k = some e → ∀ tok, setRank k tok s.log ≤ setRank k e.token s.log
  /-- Sections overlap only after the earlier lease has run out. -/
  overlap : ∀ k a b, inSection k a s.log = true → inSection k b s.log = true →
    setRank k a s.log < setRank k b s.log → ∀ d, grant k a s.log = some d → d < now

/-- Time passes. -/
theorem Ok.later {s : Server κ τ} {now now' : ℕ} (h : s.Ok now) (hle : now ≤ now') : s.Ok now' where
  backed := fun k tok d hd hn => h.backed k tok d hd (Nat.le_trans hle hn)
  last := h.last
  overlap := fun k a b ha hb hr d hd => Nat.lt_of_lt_of_le (h.overlap k a b ha hb hr d hd) hle

omit [DecidableEq τ] in
theorem live_eq_some {t : Entries κ τ} {now : ℕ} {k : κ} {e : Entry τ} :
    live t now k = some e ↔ t.lookup k = some e ∧ now ≤ e.deadline := by
  simp [live, Option.filter_eq_some_iff]

omit [DecidableEq τ] in
theorem live_eq_none {t : Entries κ τ} {now : ℕ} {k : κ} :
    live t now k = none ↔ ∀ e, t.lookup k = some e → e.deadline < now := by
  simp [live, Option.filter_eq_none_iff]

/-! ### Every call keeps the invariant -/

/-- A refused call may end a section but begins none, and grants nothing. -/
theorem Ok.refused {s : Server κ τ} {now : ℕ} (h : s.Ok now) (k : κ) (tok : τ) (c : Call) :
    Ok ⟨s.entries, ⟨now, k, tok, c, false⟩ :: s.log⟩ now := by
  have hgrant : ∀ k' t', grant k' t' (⟨now, k, tok, c, false⟩ :: s.log) = grant k' t' s.log := by
    intro k' t'
    simp [grant]
  have hrank : ∀ k' t', setRank k' t' (⟨now, k, tok, c, false⟩ :: s.log) = setRank k' t' s.log := by
    intro k' t'
    simp [setRank]
  have hsec : ∀ k' t', inSection k' t' (⟨now, k, tok, c, false⟩ :: s.log) = true →
      inSection k' t' s.log = true := by
    intro k' t' hin
    rw [inSection] at hin
    split at hin
    · cases c with
      | set ttl => simpa using hin
      | renew ttl => exact hin
      | unlock => simp at hin
    · exact hin
  refine ⟨fun k' t' d hd => ?_, fun k' e he t' => ?_, fun k' a b ha hb hr d hd => ?_⟩
  · exact h.backed k' t' d ((hgrant k' t').symm.trans hd)
  · simp only [hrank]
    exact h.last k' e he t'
  · simp only [hrank, hgrant] at hr hd
    exact h.overlap k' a b (hsec _ _ ha) (hsec _ _ hb) hr d hd

/-- An entry is set where there was none: whoever was in a section has outlived its lease. -/
theorem Ok.set {s : Server κ τ} {now : ℕ} (h : s.Ok now) {k : κ} (hk : live s.entries now k = none)
    (tok : τ) (ttl : ℕ) :
    Ok ⟨s.entries.insert k ⟨tok, now + ttl⟩, ⟨now, k, tok, .set ttl, true⟩ :: s.log⟩ now := by
  have hexp : ∀ t d, grant k t s.log = some d → d < now := by
    intro t d hd
    by_contra hn
    exact absurd (live_eq_none.mp hk _ (h.backed k t d hd (Nat.not_lt.mp hn))) hn
  refine ⟨fun k' t' d hd hn => ?_, fun k' e he t' => ?_, fun k' a b ha hb hr d hd => ?_⟩
  · rw [grant] at hd
    by_cases hkk : k = k'
    · subst hkk
      by_cases ht : tok = t'
      · subst ht
        simp only [and_self, if_true, Option.some.injEq] at hd
        subst hd
        exact AList.lookup_insert _
      · simp only [ht, false_and, and_false, if_false] at hd
        exact absurd (hexp t' d hd) (Nat.not_lt.mpr hn)
    · simp only [hkk, false_and, if_false] at hd
      exact (AList.lookup_insert_ne (Ne.symm hkk)).trans (h.backed k' t' d hd hn)
  · dsimp only at he
    by_cases hkk : k = k'
    · subst hkk
      rw [AList.lookup_insert, Option.some.injEq] at he
      subst he
      -- the new entry has the highest rank there can be
      have htop : setRank k tok (⟨now, k, tok, .set ttl, true⟩ :: s.log) = s.log.length + 1 := by
        simp [setRank]
      rw [htop]
      exact setRank_le k t' _
    · rw [AList.lookup_insert_ne (Ne.symm hkk)] at he
      simpa [setRank, hkk] using h.last k' e he t'
  · by_cases hkk : k = k'
    · subst hkk
      by_cases ht : tok = a
      · subst ht
        have hle := setRank_le k b (⟨now, k, tok, .set ttl, true⟩ :: s.log)
        simp only [setRank, and_self, if_true, List.length_cons] at hr hle
        omega
      · simp only [grant, ht, false_and, and_false, if_false] at hd
        exact hexp a d hd
    · simp only [inSection, setRank, grant, hkk, false_and, if_false] at ha hb hr hd
      exact h.overlap k' a b ha hb hr d hd

/-- What an unexpired entry carrying `tok` says about the other tokens of its key:
they are entitled to nothing, and were set before it. -/
theorem Ok.others {s : Server κ τ} {now : ℕ} (h : s.Ok now) {k : κ} {tok : τ}
    (hk : (live s.entries now k).map Entry.token = some tok) :
    (∀ t d, t ≠ tok → grant k t s.log = some d → d < now) ∧
      ∀ t, setRank k t s.log ≤ setRank k tok s.log := by
  obtain ⟨e, he, ht⟩ := Option.map_eq_some_iff.mp hk
  obtain ⟨hl, -⟩ := live_eq_some.mp he
  constructor
  · intro t d hne hd
    by_contra hn
    have hb := (h.backed k t d hd (Nat.not_lt.mp hn)).symm.trans hl
    simp only [Option.some.injEq] at hb
    subst hb
    exact hne ht
  · intro t
    have := h.last k e hl t
    rwa [ht] at this

/-- The holder deletes its entry. -/
theorem Ok.unlock {s : Server κ τ} {now : ℕ} (h : s.Ok now) {k : κ} {tok : τ}
    (hk : (live s.entries now k).map Entry.token = some tok) :
    Ok ⟨s.entries.erase k, ⟨now, k, tok, .unlock, true⟩ :: s.log⟩ now := by
  obtain ⟨hexp, -⟩ := h.others hk
  refine ⟨fun k' t' d hd hn => ?_, fun k' e he t' => ?_, fun k' a b ha hb hr d hd => ?_⟩
  · rw [grant] at hd
    by_cases hkk : k = k'
    · subst hkk
      by_cases ht : tok = t'
      · simp [ht] at hd
      · simp only [ht, false_and, and_false, if_false] at hd
        exact absurd (hexp t' d (Ne.symm ht) hd) (Nat.not_lt.mpr hn)
    · simp only [hkk, false_and, if_false] at hd
      exact (AList.lookup_erase_ne (Ne.symm hkk)).trans (h.backed k' t' d hd hn)
  · dsimp only at he
    by_cases hkk : k = k'
    · subst hkk
      simp [AList.lookup_erase] at he
    · rw [AList.lookup_erase_ne (Ne.symm hkk)] at he
      simpa [setRank] using h.last k' e he t'
  · have hrank : ∀ t, setRank k' t (⟨now, k, tok, .unlock, true⟩ :: s.log) = setRank k' t s.log := by
      intro t
      simp [setRank]
    -- a section that goes on is not the one that has ended
    have hsec : ∀ t, inSection k' t (⟨now, k, tok, .unlock, true⟩ :: s.log) = true →
        ¬(k = k' ∧ tok = t) ∧ inSection k' t s.log = true := by
      intro t hin
      rw [inSection] at hin
      split at hin
      · simp at hin
      · next hne => exact ⟨hne, hin⟩
    have hne : ¬(k = k' ∧ tok = a ∧ True) := fun hc => (hsec a ha).1 ⟨hc.1, hc.2.1⟩
    simp only [hrank] at hr
    simp only [grant, hne, if_false] at hd
    exact h.overlap k' a b (hsec a ha).2 (hsec b hb).2 hr d hd

/-- The holder moves its deadline. -/
theorem Ok.renew {s : Server κ τ} {now : ℕ} (h : s.Ok now) {k : κ} {tok : τ}
    (hk : (live s.entries now k).map Entry.token = some tok) (ttl : ℕ) :
    Ok ⟨s.entries.insert k ⟨tok, now + ttl⟩, ⟨now, k, tok, .renew ttl, true⟩ :: s.log⟩ now := by
  obtain ⟨hexp, htop⟩ := h.others hk
  -- no section begins or ends
  have hrank : ∀ k' t, setRank k' t (⟨now, k, tok, .renew ttl, true⟩ :: s.log) =
      setRank k' t s.log := by
    intro k' t
    simp [setRank]
  refine ⟨fun k' t' d hd hn => ?_, fun k' e he t' => ?_, fun k' a b ha hb hr d hd => ?_⟩
  · rw [grant] at hd
    by_cases hkk : k = k'
    · subst hkk
      by_cases ht : tok = t'
      · subst ht
        simp only [and_self, if_true, Option.some.injEq] at hd
        subst hd
        exact AList.lookup_insert _
      · simp only [ht, false_and, and_false, if_false] at hd
        exact absurd (hexp t' d (Ne.symm ht) hd) (Nat.not_lt.mpr hn)
    · simp only [hkk, false_and, if_false] at hd
      exact (AList.lookup_insert_ne (Ne.symm hkk)).trans (h.backed k' t' d hd hn)
  · dsimp only at he
    simp only [hrank]
    by_cases hkk : k = k'
    · subst hkk
      rw [AList.lookup_insert, Option.some.injEq] at he
      subst he
      exact htop t'
    · rw [AList.lookup_insert_ne (Ne.symm hkk)] at he
      exact h.last k' e he t'
  · simp only [hrank] at hr
    have hsec : ∀ t, inSection k' t (⟨now, k, tok, .renew ttl, true⟩ :: s.log) =
        inSection k' t s.log := by
      intro t
      simp [inSection]
    rw [hsec] at ha hb
    by_cases hkk : k = k'
    · subst hkk
      by_cases ht : tok = a
      · -- the entry is `a`'s, so no section has begun after `a`'s
        subst ht
        exact absurd (htop b) (Nat.not_le.mpr hr)
      · simp only [grant, ht, false_and, and_false, if_false] at hd
        exact h.overlap k a b ha hb hr d hd
    · simp only [grant, hkk, false_and, if_false] at hd
      exact h.overlap k' a b ha hb hr d hd

/-- **Every call keeps the invariant.** -/
theorem serve_ok {s : Server κ τ} {now : ℕ} (h : s.Ok now) (k : κ) (tok : τ) (c : Call) :
    (s.serve now k tok c).1.Ok now := by
  unfold serve
  cases c with
  | set ttl =>
    by_cases hk : live s.entries now k = none
    · simpa [answer, hk] using h.set hk tok ttl
    · simpa [answer, hk] using h.refused k tok (.set ttl)
  | unlock =>
    by_cases hk : (live s.entries now k).map Entry.token = some tok
    · simpa only [answer, hk, if_true] using h.unlock hk
    · simpa only [answer, hk, if_false] using h.refused k tok .unlock
  | renew ttl =>
    by_cases hk : (live s.entries now k).map Entry.token = some tok
    · simpa only [answer, hk, if_true] using h.renew hk ttl
    · simpa only [answer, hk, if_false] using h.refused k tok (.renew ttl)

/-! ### What the invariant says -/

/-- **At most one token is entitled to a key**, and the entry carries it. -/
theorem Ok.holder_unique {s : Server κ τ} {now : ℕ} (h : s.Ok now) {k : κ} {a b : τ}
    (ha : s.Holds now k a) (hb : s.Holds now k b) : a = b := by
  obtain ⟨d, hd, hnd⟩ := ha
  obtain ⟨e, he, hne⟩ := hb
  have heq := (h.backed k a d hd hnd).symm.trans (h.backed k b e he hne)
  simp only [Option.some.injEq, Entry.mk.injEq] at heq
  exact heq.1

theorem Ok.live_of_holds {s : Server κ τ} {now : ℕ} (h : s.Ok now) {k : κ} {a : τ}
    (ha : s.Holds now k a) : ∃ d, live s.entries now k = some ⟨a, d⟩ := by
  obtain ⟨d, hd, hnd⟩ := ha
  exact ⟨d, live_eq_some.mpr ⟨h.backed k a d hd hnd, hnd⟩⟩

/-- **While `a` is entitled to the key, a call by anybody else is refused and leaves
the entries as they are.** -/
theorem Ok.foreign {s : Server κ τ} {now : ℕ} (h : s.Ok now) {k : κ} {a b : τ}
    (ha : s.Holds now k a) (hab : b ≠ a) (c : Call) :
    answer s.entries now k b c = (s.entries, false) := by
  obtain ⟨d, hd⟩ := h.live_of_holds ha
  cases c <;> simp [answer, hd, Ne.symm hab]

end Server

end Lease

end CqrsSaga
