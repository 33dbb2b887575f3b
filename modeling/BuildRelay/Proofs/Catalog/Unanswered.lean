/-
BuildRelay.Proofs.Catalog.Unanswered — held keys that nobody answers for.

Several stores may hold something under one key, but only the owner answers for it. When the file
of the owner is deleted the key is released, and no other holder moves up: it has to wait for the
next claim. That is the one way in which a key that entered its store by a claim comes to be
unanswered.

* `entered?` — with what a store came to hold something under a key.
* `releases_iff` — an owned key is lost to a deletion only.
* `Consistent.owner_of_release` — whoever still holds the key then was not its owner.
* `run_unanswered_iff` — exactly when a held key is unanswered.
* `run_unanswered_after_takeover` — a session in which one is.
-/
import BuildRelay.Proofs.Catalog.Contest
import BuildRelay.Proofs.Catalog.Kinds

namespace BuildRelay

namespace Catalog

/-! ## How a store came to hold something -/

/-- The first artifact that a store was given under a key, after one more operation; `none` if it
holds nothing there. -/
def nextEntered (c : Catalog) (path key : String) (e : Option Artifact) (op : Op) :
    Option Artifact :=
  if (c.step op).artifact? path key = none then none else e.or (op.write? path key)

/-- The first artifact that a store was given under a key, after more operations. -/
def enteredFrom (path key : String) (c : Catalog) (e : Option Artifact) :
    List Op → Option Artifact
  | [] => e
  | op :: ops => enteredFrom path key (c.step op) (c.nextEntered path key e op) ops

/-- The artifact with which the store of a path came to hold something under a key, if it still
does; what it holds now may be of another kind. -/
def entered? (path key : String) (ops : List Op) : Option Artifact :=
  enteredFrom path key ∅ none ops

theorem enteredFrom_concat (path key : String) (c : Catalog) (e : Option Artifact) (ops : List Op)
    (op : Op) : enteredFrom path key c e (ops ++ [op]) =
      (c.run ops).nextEntered path key (enteredFrom path key c e ops) op := by
  induction ops generalizing c e with
  | nil => rfl
  | cons first ops ih => exact ih _ _

theorem entered?_concat (path key : String) (ops : List Op) (op : Op) :
    entered? path key (ops ++ [op]) =
      (run ∅ ops).nextEntered path key (entered? path key ops) op :=
  enteredFrom_concat path key ∅ none ops op

/-- A store holds something under a key exactly if something came there. -/
theorem entered?_eq_none_iff (path key : String) (ops : List Op) :
    entered? path key ops = none ↔ (run ∅ ops).artifact? path key = none := by
  induction ops using List.reverseRecOn with
  | nil => exact ⟨fun _ => rfl, fun _ => rfl⟩
  | append_singleton ops op ih =>
    rw [entered?_concat, run_concat, nextEntered]
    split
    · rename_i hnone
      simp [hnone]
    · rename_i hsome
      refine iff_of_false ?_ hsome
      obtain ⟨a, ha⟩ := Option.ne_none_iff_exists'.mp hsome
      rw [Option.or_eq_none_iff, ih]
      rintro ⟨hold, hwrite⟩
      rcases kind_step ha with ⟨b, hb, -⟩ | ⟨-, b, hb, -⟩
      · rw [hwrite] at hb
        cases hb
      · rw [hold] at hb
        cases hb

/-- What a store came to hold was there before, or is written by a put that finds nothing. -/
theorem entered?_concat_eq_some {path key : String} {ops : List Op} {op : Op} {b : Artifact}
    (h : entered? path key (ops ++ [op]) = some b) :
    entered? path key ops = some b ∨
      (run ∅ ops).artifact? path key = none ∧ op.write? path key = some b := by
  rw [entered?_concat, nextEntered] at h
  split at h
  · cases h
  · cases hold : entered? path key ops with
    | some b' =>
      rw [hold, Option.some_or] at h
      exact .inl h
    | none =>
      rw [hold, Option.none_or] at h
      exact .inr ⟨(entered?_eq_none_iff path key ops).mp hold, h⟩

/-! ## How an owner is lost -/

section Step

variable {c : Catalog} {key : String}

/-- A claim leaves its key owned, by the claimant or by whoever was there. -/
theorem contains_owners_put_of_claims {path : String} {a : Artifact} (h : c.Claims path key a)
    (file : Option File) : (c.put path key a file).2.owners.contains key = true := by
  rw [owners_put]
  split
  · simp
  · rename_i hnot
    rw [not_and_or, not_or] at hnot
    exact (Bool.not_eq_false _).mp (hnot.resolve_left (not_not_intro h)).2

/-- A key under which something other than an import comes to a store is owned. -/
theorem contains_owners_step_of_write {path : String} {a : Artifact} {op : Op}
    (hnone : c.artifact? path key = none) (himport : a.isImport = false)
    (hwrite : op.write? path key = some a) : (c.step op).owners.contains key = true := by
  cases op with
  | put p k b file =>
    simp only [Op.write?] at hwrite
    split at hwrite
    · rename_i hpk
      obtain ⟨rfl, rfl⟩ := hpk
      cases hwrite
      exact contains_owners_put_of_claims ⟨hnone, himport⟩ file
    · cases hwrite
  | fill k text => cases hwrite
  | deleteFile id => cases hwrite
  | deletePath p => cases hwrite

/-- A put takes no owner away. -/
theorem contains_owners_put (h : c.owners.contains key = true) (path k : String) (a : Artifact)
    (file : Option File) : (c.put path k a file).2.owners.contains key = true := by
  rw [owners_put]
  split
  · rw [OrderedMap.contains_insert, h, Bool.or_true]
  · exact h

/-- A release is a step that takes an owner away, and only a deletion does. -/
theorem releases_iff {op : Op} : c.releases key op = true ↔
    c.owners.contains key = true ∧ (c.step op).owners.contains key = false := by
  cases op with
  | put path k a file =>
    refine ⟨nofun, ?_⟩
    rintro ⟨howned, hlost⟩
    have hkept : (c.step (.put path k a file)).owners.contains key = true :=
      contains_owners_put howned path k a file
    rw [hlost] at hkept
    cases hkept
  | fill k text =>
    refine ⟨nofun, ?_⟩
    rintro ⟨howned, hlost⟩
    rw [owners_step_fill, howned] at hlost
    cases hlost
  | deleteFile id => simp [releases]
  | deletePath path => simp [releases]

/-- A deletion that releases a key deletes the file of its owner. So whoever holds the key
afterwards was not the owner. -/
theorem Consistent.owner_of_release (hc : Consistent c) {op : Op} (h : c.releases key op = true)
    {path : String} (hheld : (c.step op).artifact? path key ≠ none) :
    ∃ o, c.owners.get? key = some o ∧ o.path ≠ path := by
  obtain ⟨howned, hfree⟩ := releases_iff.mp h
  -- Only a deletion releases, and it deletes one file.
  obtain ⟨id, hstep⟩ : ∃ id, c.step op = c.deleteFile id := by
    cases op with
    | put p k a file => cases h
    | fill k text => cases h
    | deleteFile id => exact ⟨id, rfl⟩
    | deletePath p =>
      rcases c.step_deletePath p with hsame | hdelete
      · rw [hsame, howned] at hfree
        cases hfree
      · exact hdelete
  obtain ⟨o, ho⟩ := OrderedMap.contains_iff.mp howned
  refine ⟨o, ho, ?_⟩
  rintro rfl
  rw [hstep] at hfree hheld
  have hfile : o.file = id := by
    by_contra hne
    rw [OrderedMap.contains_of_get? (get?_owners_deleteFile.mpr ⟨ho, hne⟩)] at hfree
    cases hfree
  obtain ⟨a, ha⟩ := Option.ne_none_iff_exists'.mp hheld
  obtain ⟨s, hs, -⟩ := Option.bind_eq_some_iff.mp ha
  obtain ⟨hs, hkept⟩ := get?_stores_deleteFile.mp hs
  obtain ⟨s', hs', hfile', -⟩ := hc.owner_held key o ho
  rw [hs] at hs'
  cases hs'
  exact hkept (hfile'.trans hfile)

/-- Nobody answers for a key exactly if it has no owner. -/
theorem Consistent.find?_eq_none_iff (hc : Consistent c) :
    c.find? key = none ↔ c.owners.contains key = false := by
  constructor
  · intro hnone
    rw [← Bool.not_eq_true]
    intro howned
    obtain ⟨o, ho⟩ := OrderedMap.contains_iff.mp howned
    obtain ⟨v, hv, -⟩ := hc.find?_of_owner ho
    rw [hnone] at hv
    cases hv
  · intro hfree
    rw [Option.eq_none_iff_forall_ne_some]
    intro v hv
    obtain ⟨o, ho, -⟩ := find?_eq_some_iff.mp hv
    rw [OrderedMap.contains_of_get? ho] at hfree
    cases hfree

end Step

/-! ## Sessions -/

theorem claimsFrom_append (key : String) (c : Catalog) (l : List Claim) (xs ys : List Op) :
    claimsFrom key c l (xs ++ ys) = claimsFrom key (c.run xs) (claimsFrom key c l xs) ys := by
  induction xs generalizing c l with
  | nil => rfl
  | cons op xs ih => exact ih _ _

/-- A release forgets all claims before it. -/
theorem claims_of_releases {key : String} {before : List Op} {op : Op}
    (h : (run ∅ before).releases key op = true) (after : List Op) :
    claims key (before ++ op :: after) = claimsFrom key ((run ∅ before).step op) [] after := by
  rw [claims, claimsFrom_append]
  show claimsFrom key _ (nextClaims _ key _ op) after = _
  rw [nextClaims, if_pos h]

theorem contains_owners_iff_claims (key : String) (ops : List Op) :
    (run ∅ ops).owners.contains key = true ↔ claims key ops ≠ [] :=
  (Settled.run empty_consistent (empty_settled key) ops).contains_iff

/-- A key that came to a store by a claim is still answered for, or was released since, while the
store held it and another path owned it, and has not been claimed after that. -/
theorem released_of_unanswered {path key : String} (ops : List Op) :
    ∀ {b : Artifact}, entered? path key ops = some b → b.isImport = false →
      (run ∅ ops).owners.contains key = false →
      ∃ before op after o, ops = before ++ op :: after ∧
        (run ∅ before).artifact? path key ≠ none ∧
        (run ∅ before).owners.get? key = some o ∧ o.path ≠ path ∧
        (run ∅ before).releases key op = true ∧
        claimsFrom key ((run ∅ before).step op) [] after = [] := by
  induction ops using List.reverseRecOn with
  | nil =>
    intro b h
    cases h
  | append_singleton ops op ih =>
    intro b hentered himport hfree
    have hfree' : ((run ∅ ops).step op).owners.contains key = false := by
      rw [← run_concat]
      exact hfree
    rcases entered?_concat_eq_some hentered with hold | ⟨hnone, hwrite⟩
    · have hheld : (run ∅ ops).artifact? path key ≠ none := by
        rw [ne_eq, ← entered?_eq_none_iff, hold]
        exact Option.some_ne_none b
      cases howned : (run ∅ ops).owners.contains key with
      | true =>
        -- The last operation is the release.
        have hrelease := releases_iff.mpr ⟨howned, hfree'⟩
        have hstill : ((run ∅ ops).step op).artifact? path key ≠ none := by
          rw [← run_concat, ne_eq, ← entered?_eq_none_iff, hentered]
          exact Option.some_ne_none b
        obtain ⟨o, ho, hne⟩ := (run_consistent ops).owner_of_release hrelease hstill
        exact ⟨ops, op, [], o, rfl, hheld, ho, hne, hrelease, rfl⟩
      | false =>
        obtain ⟨before, del, after, o, hops, hbefore, ho, hne, hrelease, -⟩ :=
          ih hold himport howned
        refine ⟨before, del, after ++ [op], o, by simp [hops], hbefore, ho, hne, hrelease, ?_⟩
        rw [← claims_of_releases hrelease]
        by_contra hclaims
        have howned' := (contains_owners_iff_claims key _).mpr hclaims
        have hsame : before ++ del :: (after ++ [op]) = ops ++ [op] := by simp [hops]
        rw [hsame, hfree] at howned'
        cases howned'
    · -- The last operation puts the key there, which claims it.
      rw [contains_owners_step_of_write hnone himport hwrite] at hfree'
      cases hfree'

/-- When a held key is unanswered, in every session. A key that its store came to hold with
something other than an import is answered for by nobody exactly if some deletion released it
since: one of the file of another path, which owned the key while the store held it as well. No
claim of the key may stand from after that deletion. So as long as the owner of a held key is not
deleted the key is answered for, and it is again as soon as somebody claims it. -/
theorem run_unanswered_iff (ops : List Op) {path key : String} {b : Artifact}
    (hentered : entered? path key ops = some b) (himport : b.isImport = false) :
    (run ∅ ops).find? key = none ↔
      ∃ before op after o, ops = before ++ op :: after ∧
        (run ∅ before).artifact? path key ≠ none ∧
        (run ∅ before).owners.get? key = some o ∧ o.path ≠ path ∧
        (run ∅ before).releases key op = true ∧
        claimsFrom key ((run ∅ before).step op) [] after = [] := by
  rw [(run_consistent ops).find?_eq_none_iff]
  constructor
  · intro hfree
    exact released_of_unanswered ops hentered himport hfree
  · rintro ⟨before, op, after, o, rfl, -, -, -, hrelease, hclaims⟩
    rw [← Bool.not_eq_true, contains_owners_iff_claims, claims_of_releases hrelease, not_not]
    exact hclaims

/-- A source that is only read announces its typings, a compiled source announces the same path
and takes it over, and then the compiled source is deleted. -/
def takenOverTypingsSession : List Op :=
  [.put "/lib/a.d.ts" "/lib/a.d.ts" (.source "stale")
      (some ⟨.readOnly, "/lib/a.d.ts", "/lib/tsconfig.json", ∅⟩),
    .put "/lib/a.d.ts" "/out/a.d.ts" (.output .typings none) none,
    .put "/src/a.ts" "/src/a.ts" (.source "live")
      (some ⟨.compiled, "/src/a.ts", "/p/tsconfig.json", ∅⟩),
    .put "/src/a.ts" "/out/a.d.ts" (.output .typings none) none,
    .deletePath "/src/a.ts"]

theorem run_unanswered_after_takeover :
    let c := run ∅ takenOverTypingsSession
    c.artifact? "/lib/a.d.ts" "/out/a.d.ts" = some (.output .typings none) ∧
      c.find? "/out/a.d.ts" = none := by
  decide

theorem run_unanswered_after_takeover_released :
    entered? "/lib/a.d.ts" "/out/a.d.ts" takenOverTypingsSession = some (.output .typings none) ∧
      (Artifact.output .typings none).isImport = false ∧
      (run ∅ takenOverTypingsSession).find? "/out/a.d.ts" = none := by
  have hentered : entered? "/lib/a.d.ts" "/out/a.d.ts" takenOverTypingsSession =
      some (.output .typings none) := by decide
  refine ⟨hentered, rfl, (run_unanswered_iff takenOverTypingsSession hentered rfl).mpr ?_⟩
  exact ⟨takenOverTypingsSession.dropLast, .deletePath "/src/a.ts", [], ⟨"/src/a.ts", 1⟩,
    rfl, by decide, by decide, by decide, by decide, rfl⟩

end Catalog

end BuildRelay
