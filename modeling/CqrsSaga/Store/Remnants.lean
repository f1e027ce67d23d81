import CqrsSaga.Store.Lease

/-!
# What is left of a token

A client that sets entries with one token may not learn that a set was done.  What is left of the
token can be read off the calls the server has answered: every set that was done left an entry,
until it runs out.  Calls of other tokens do not touch that.

## Main definitions

* `Lease.Server.Spares` — what concerns a token stays as it is.
* `Lease.Server.Remnants` — the entries of a token are those its sets have left.

## Main results

* `Lease.Server.serve_spares` — a call of another token spares this one.
* `Lease.Server.Remnants.set` — another set keeps the account.
* `Lease.Server.Remnants.gone_iff` — **nothing is left of a token exactly if every set that was done
  has run out.**
-/

namespace CqrsSaga

namespace Lease

namespace Server

variable {κ τ : Type} [DecidableEq κ] [DecidableEq τ] {s s' s'' : Server κ τ} {now later : ℕ}
  {k : κ} {tok : τ} {ttl : ℕ}

/-! ### Calls of others -/

/-- From `s` to `s'`, at the time `now`, nothing has happened to the entries and the calls of the
token, except that entries have run out. -/
structure Spares (s s' : Server κ τ) (now : ℕ) (tok : τ) : Prop where
  live_iff : ∀ k e, e.token = tok → (live s'.entries now k = some e ↔ live s.entries now k = some e)
  log_iff : ∀ r, r.token = tok → (r ∈ s'.log ↔ r ∈ s.log)

theorem Spares.refl (s : Server κ τ) (now : ℕ) (tok : τ) : Spares s s now tok :=
  ⟨fun _ _ _ => Iff.rfl, fun _ _ => Iff.rfl⟩

omit [DecidableEq τ] in
/-- What is there later is there now. -/
theorem live_earlier {t : Entries κ τ} {e : Entry τ} (hle : now ≤ later)
    (h : live t later k = some e) : live t now k = some e := by
  obtain ⟨hlookup, hdeadline⟩ := live_eq_some.mp h
  exact live_eq_some.mpr ⟨hlookup, Nat.le_trans hle hdeadline⟩

omit [DecidableEq τ] in
/-- An entry that is set is there. -/
theorem live_insert_self (t : Entries κ τ) (now : ℕ) (k : κ) (tok : τ) (ttl : ℕ) :
    live (t.insert k ⟨tok, now + ttl⟩) now k = some ⟨tok, now + ttl⟩ :=
  live_eq_some.mpr ⟨AList.lookup_insert t, Nat.le_add_right now ttl⟩

theorem Spares.trans (h : Spares s s' now tok) (h' : Spares s' s'' later tok) (hle : now ≤ later) :
    Spares s s'' later tok := by
  constructor
  · intro k e he
    rw [h'.live_iff k e he]
    constructor
    · intro hl
      have hnow := (h.live_iff k e he).mp (live_earlier hle hl)
      exact live_eq_some.mpr ⟨(live_eq_some.mp hnow).1, (live_eq_some.mp hl).2⟩
    · intro hl
      have hnow := (h.live_iff k e he).mpr (live_earlier hle hl)
      exact live_eq_some.mpr ⟨(live_eq_some.mp hnow).1, (live_eq_some.mp hl).2⟩
  · intro r hr
    rw [h'.log_iff r hr, h.log_iff r hr]

omit [DecidableEq κ] [DecidableEq τ] in
/-- An entry that is there carries another token than one that is not its own. -/
theorem token_ne_of_map {o : Option (Entry τ)} {tok' : τ} (h : o.map Entry.token = some tok')
    (hne : tok' ≠ tok) {e : Entry τ} (he : e.token = tok) : o ≠ some e := by
  rintro rfl
  exact hne ((Option.some.inj h).symm.trans he)

/-- **A call of another token spares this one.** -/
theorem serve_spares (s : Server κ τ) (now : ℕ) (k' : κ) {tok' : τ} (c : Call) (hne : tok' ≠ tok) :
    Spares s (s.serve now k' tok' c).1 now tok := by
  refine ⟨fun k e he => ?_, fun r hr => ?_⟩
  · rw [serve_entries]
    by_cases hk : k = k'
    · subst hk
      cases c with
      | set ttl =>
        rw [answer]
        split
        · next hfree =>
          rw [live_insert_self, hfree]
          refine iff_of_false (fun h => ?_) fun h => ?_
          · exact hne ((congrArg Entry.token (Option.some.inj h)).trans he)
          · cases h
        · rfl
      | unlock =>
        rw [answer]
        split
        · next hown =>
          refine iff_of_false (fun h => ?_) (token_ne_of_map hown hne he)
          have hlookup := (live_eq_some.mp h).1
          rw [AList.lookup_erase] at hlookup
          cases hlookup
        · rfl
      | renew ttl =>
        rw [answer]
        split
        · next hown =>
          rw [live_insert_self]
          refine iff_of_false (fun h => ?_) (token_ne_of_map hown hne he)
          exact hne ((congrArg Entry.token (Option.some.inj h)).trans he)
        · rfl
    · rw [live_eq_some, live_eq_some, answer_lookup_of_ne s.entries hk now tok' c]
  · rw [serve_log, List.mem_cons]
    refine or_iff_right fun h => hne ?_
    rw [h] at hr
    exact hr

/-! ### The sets of one client -/

/-- The entries of the token are those its sets under `k` have left, each living for `ttl`. -/
structure Remnants (s : Server κ τ) (now : ℕ) (k : κ) (tok : τ) (ttl : ℕ) : Prop where
  /-- An entry was set. -/
  entry : ∀ k' e, live s.entries now k' = some e → e.token = tok →
    ∃ r ∈ s.log, r.token = tok ∧ r.done = true ∧ e.deadline = r.time + ttl
  /-- What was set is there until it runs out. -/
  lasting : ∀ r ∈ s.log, r.token = tok → r.done = true → now ≤ r.time + ttl →
    live s.entries now k = some ⟨tok, r.time + ttl⟩

/-- A token nobody has used. -/
theorem Remnants.unused (hentries : ∀ k' e, s.entries.lookup k' = some e → e.token ≠ tok)
    (hlog : ∀ r ∈ s.log, r.token ≠ tok) : s.Remnants now k tok ttl where
  entry := fun k' e he ht => absurd ht (hentries k' e (live_eq_some.mp he).1)
  lasting := fun r hr ht => absurd ht (hlog r hr)

/-- Others are at work, and time passes. -/
theorem Remnants.spared (h : s.Remnants now k tok ttl) (hs : Spares s s' later tok)
    (hle : now ≤ later) : s'.Remnants later k tok ttl := by
  constructor
  · intro k' e he ht
    obtain ⟨r, hr, hrt, hdone⟩ :=
      h.entry k' e (live_earlier hle ((hs.live_iff k' e ht).mp he)) ht
    exact ⟨r, (hs.log_iff r hrt).mpr hr, hrt, hdone⟩
  · intro r hr hrt hdone hlive
    refine (hs.live_iff k _ rfl).mpr (live_eq_some.mpr ⟨?_, hlive⟩)
    have hnow := h.lasting r ((hs.log_iff r hrt).mp hr) hrt hdone (Nat.le_trans hle hlive)
    exact (live_eq_some.mp hnow).1

/-- **Another set keeps the account**, whether it is done or not. -/
theorem Remnants.set (h : s.Remnants now k tok ttl) :
    (s.serve now k tok (.set ttl)).1.Remnants now k tok ttl := by
  by_cases hfree : live s.entries now k = none
  · have hanswer : answer s.entries now k tok (.set ttl) =
        (s.entries.insert k ⟨tok, now + ttl⟩, true) := by
      rw [answer, if_pos hfree]
    have hset := live_insert_self s.entries now k tok ttl
    constructor
    · intro k' e he ht
      rw [serve_entries, hanswer] at he
      rw [serve_log, hanswer]
      by_cases hk : k' = k
      · subst hk
        obtain rfl := Option.some.inj (hset.symm.trans he)
        exact ⟨_, List.mem_cons_self, rfl, rfl, rfl⟩
      · rw [live_eq_some, AList.lookup_insert_ne hk, ← live_eq_some] at he
        obtain ⟨r, hr, hrest⟩ := h.entry k' e he ht
        exact ⟨r, List.mem_cons_of_mem _ hr, hrest⟩
    · intro r hr hrt hdone hlive
      rw [serve_log, hanswer] at hr
      rw [serve_entries, hanswer]
      rcases List.mem_cons.mp hr with rfl | hr
      · exact hset
      · -- an earlier set has run out: the key was free
        have hold := h.lasting r hr hrt hdone hlive
        rw [hfree] at hold
        cases hold
  · have hanswer : answer s.entries now k tok (.set ttl) = (s.entries, false) := by
      rw [answer, if_neg hfree]
    constructor
    · intro k' e he ht
      rw [serve_entries, hanswer] at he
      obtain ⟨r, hr, hrest⟩ := h.entry k' e he ht
      exact ⟨r, List.mem_cons_of_mem _ hr, hrest⟩
    · intro r hr hrt hdone hlive
      rw [serve_log, hanswer] at hr
      rw [serve_entries, hanswer]
      rcases List.mem_cons.mp hr with rfl | hr
      · cases hdone
      · exact h.lasting r hr hrt hdone hlive

/-- A set that is done leaves its entry. -/
theorem live_of_set (h : (s.serve now k tok (.set ttl)).2 = true) :
    live (s.serve now k tok (.set ttl)).1.entries now k = some ⟨tok, now + ttl⟩ := by
  rw [serve_done, answer] at h
  rw [serve_entries, answer]
  split at h
  · next hfree =>
    rw [if_pos hfree]
    exact live_insert_self s.entries now k tok ttl
  · cases h

/-- Nothing is there that carries the token. -/
def Gone (s : Server κ τ) (now : ℕ) (tok : τ) : Prop :=
  ∀ k e, live s.entries now k = some e → e.token ≠ tok

/-- **Nothing is left of the token exactly if every set that was done has run out.** -/
theorem Remnants.gone_iff (h : s.Remnants now k tok ttl) :
    s.Gone now tok ↔ ∀ r ∈ s.log, r.token = tok → r.done = true → r.time + ttl < now := by
  constructor
  · intro hgone r hr hrt hdone
    by_contra hlive
    exact hgone k _ (h.lasting r hr hrt hdone (Nat.not_lt.mp hlive)) rfl
  · intro hout k' e he ht
    obtain ⟨r, hr, hrt, hdone, hdeadline⟩ := h.entry k' e he ht
    have hrun := hout r hr hrt hdone
    have hlive := (live_eq_some.mp he).2
    omega

end Server

end Lease

end CqrsSaga
