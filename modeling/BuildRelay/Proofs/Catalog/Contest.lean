/-
BuildRelay.Proofs.Catalog.Contest — who owns a key, told from the history of the session.

A put of a new artifact under a key claims the key for its source path. The owner of a key is not
stored as a history, only as the last winner; here the history is kept beside the session and the
winner is computed from it.

* `claim?`, `releases`, `claims` — the claims of a key since a deletion last released it.
* `winner?` — the latest compiled claim, or else the first claim.
* `Settled.step` — one operation moves owner and history in step.
* `run_owner_eq_winner` — the owner of every key in every session.
-/
import BuildRelay.Proofs.Catalog.Consistency

namespace BuildRelay

namespace Catalog

/-! ## Claims -/

/-- One claim of a key. -/
structure Claim where
  path : String
  compiled : Bool
  deriving DecidableEq, Repr

/-- The winner of a contest: the latest compiled claim, or else the first claim. -/
def winner? (l : List Claim) : Option Claim :=
  ((l.filter Claim.compiled).getLast?).or l.head?

/-- The record of the file that a put is made for: the given one, or else that of the file that
answers for the path, or else a placeholder. -/
def recordFor (c : Catalog) (path : String) (file : Option File) : File :=
  file.getD ((c.file? path).getD (.placeholder path))

/-- The claim of a key that an operation makes. -/
def claim? (c : Catalog) (key : String) : Op → Option Claim
  | .put path k a file =>
    if k = key ∧ c.Claims path k a then some ⟨path, (c.recordFor path file).isCompiled⟩ else none
  | .fill .. | .deleteFile _ | .deletePath _ => none

/-- Whether an operation is a deletion that takes the owner of a key away. -/
def releases (c : Catalog) (key : String) : Op → Bool
  | .put .. | .fill .. => false
  | .deleteFile id => c.owners.contains key && !(c.step (.deleteFile id)).owners.contains key
  | .deletePath path => c.owners.contains key && !(c.step (.deletePath path)).owners.contains key

/-- The claims since the last release, after one more operation. -/
def nextClaims (c : Catalog) (key : String) (l : List Claim) (op : Op) : List Claim :=
  if c.releases key op then [] else l ++ (c.claim? key op).toList

/-- The claims since the last release, after more operations. -/
def claimsFrom (key : String) (c : Catalog) (l : List Claim) : List Op → List Claim
  | [] => l
  | op :: ops => claimsFrom key (c.step op) (c.nextClaims key l op) ops

/-- The claims of a key in a session since the last release, oldest first. -/
def claims (key : String) (ops : List Op) : List Claim := claimsFrom key ∅ [] ops

theorem winner?_concat (l : List Claim) (x : Claim) :
    winner? (l ++ [x]) = if x.compiled = true ∨ l = [] then some x else winner? l := by
  unfold winner?
  cases hx : x.compiled with
  | true => simp [List.filter_append, hx]
  | false =>
    cases l with
    | nil => simp [hx]
    | cons y rest => simp [hx]

theorem winner?_eq_none_iff {l : List Claim} : winner? l = none ↔ l = [] := by
  constructor
  · intro h
    exact List.head?_eq_none_iff.mp (Option.or_eq_none_iff.mp h).2
  · rintro rfl
    rfl

/-! ## The owner keeps step with the claims -/

/-- A put asks the record that it is made for whether it may take a key over. -/
theorem Consistent.isCompiled_enroll {c : Catalog} (h : Consistent c) (path : String)
    (file : Option File) :
    (c.enroll path file).2.isCompiled (c.enroll path file).1.file =
      (c.recordFor path file).isCompiled := by
  obtain ⟨s, hs, rfl, he⟩ | ⟨s, f, hs, rfl, he⟩ | ⟨o, hs, rfl, ho, he⟩ | ⟨hs, howner, he⟩ :=
    c.enroll_cases path file <;> rw [he]
  · obtain ⟨f, hf⟩ := OrderedMap.contains_iff.mp (h.store_live path s hs)
    simp [isCompiled, recordFor, file?, fileId?, hs, hf]
  · obtain ⟨f', hf'⟩ := OrderedMap.contains_iff.mp (h.store_live path s hs)
    simp [isCompiled, recordFor, OrderedMap.get?_modify, hf']
  · obtain ⟨f, hf⟩ := OrderedMap.contains_iff.mp (h.owner_live ho)
    simp [isCompiled, recordFor, file?, fileId?, hs, ho, hf]
  · cases file with
    | some f => simp [isCompiled, recordFor, OrderedMap.get?_insert]
    | none => simp [isCompiled, recordFor, file?, fileId?, hs, howner rfl, OrderedMap.get?_insert]

/-- The owner of a key is the winner of the claims. -/
def Settled (c : Catalog) (key : String) (l : List Claim) : Prop :=
  (c.owners.get? key).map Owner.path = (winner? l).map Claim.path

theorem empty_settled (key : String) : Settled ∅ key [] := rfl

theorem Settled.contains_iff {c : Catalog} {key : String} {l : List Claim}
    (h : Settled c key l) : c.owners.contains key = true ↔ l ≠ [] := by
  rw [OrderedMap.contains, ← Option.isSome_map (f := Owner.path), h, Option.isSome_map,
    Option.isSome_iff_ne_none, ne_eq, winner?_eq_none_iff]

/-- The owner of a key after a put: whoever claims it, if the key is free or the claim compiled. -/
theorem Consistent.get?_owners_put {c : Catalog} (h : Consistent c) (path k key : String)
    (a : Artifact) (file : Option File) :
    ((c.put path k a file).2.owners.get? key).map Owner.path =
      match c.claim? key (.put path k a file) with
      | none => (c.owners.get? key).map Owner.path
      | some x =>
        if x.compiled = true ∨ c.owners.contains key = false then some x.path
        else (c.owners.get? key).map Owner.path := by
  rw [owners_put, h.isCompiled_enroll]
  by_cases hk : k = key
  · subst hk
    by_cases hclaims : c.Claims path k a
    · simp only [claim?, hclaims, true_and, and_self, if_true]
      split
      · rw [OrderedMap.get?_insert, if_pos rfl]; rfl
      · rfl
    · simp only [claim?, hclaims, false_and, and_false, if_false]
  · simp only [claim?, hk, false_and, if_false]
    split
    · rw [OrderedMap.get?_insert, if_neg (Ne.symm hk)]
    · rfl

theorem Settled.put {c : Catalog} (hc : Consistent c) {key : String} {l : List Claim}
    (h : Settled c key l) (path k : String) (a : Artifact) (file : Option File) :
    Settled (c.put path k a file).2 key (l ++ (c.claim? key (.put path k a file)).toList) := by
  unfold Settled
  rw [hc.get?_owners_put]
  cases c.claim? key (.put path k a file) with
  | none =>
    rw [Option.toList_none, List.append_nil]
    exact h
  | some x =>
    have hfree : c.owners.contains key = false ↔ l = [] := by
      rw [← Bool.not_eq_true, h.contains_iff, not_not]
    rw [Option.toList_some, winner?_concat]
    simp only [hfree]
    split
    · rfl
    · exact h

/-- A deletion leaves the owner of a key alone or releases the key. -/
theorem get?_owners_deleteFile_or (c : Catalog) (id : FileId) (key : String) :
    (c.deleteFile id).owners.get? key = c.owners.get? key ∨
      (c.deleteFile id).owners.get? key = none := by
  cases hafter : (c.deleteFile id).owners.get? key with
  | none => exact .inr rfl
  | some o => exact .inl (get?_owners_deleteFile.mp hafter).1.symm

/-- After such a change the claims are all still there, or none is. -/
theorem Settled.delete {c c' : Catalog} {key : String} {l : List Claim} (h : Settled c key l)
    (hchange : c'.owners.get? key = c.owners.get? key ∨ c'.owners.get? key = none) :
    Settled c' key (if (c.owners.contains key && !c'.owners.contains key) = true then [] else l) := by
  unfold Settled at h ⊢
  rcases hchange with hsame | hnone
  · have hkeep : (c.owners.contains key && !c'.owners.contains key) = false := by
      simp [OrderedMap.contains, hsame]
    simpa [hkeep, hsame] using h
  · cases hbefore : c.owners.get? key with
    | none =>
      rw [hbefore] at h
      simpa [OrderedMap.contains, hbefore, hnone] using h
    | some o => simp [OrderedMap.contains, hbefore, hnone, winner?]

theorem Settled.step {c : Catalog} (hc : Consistent c) {key : String} {l : List Claim}
    (h : Settled c key l) (op : Op) : Settled (c.step op) key (c.nextClaims key l op) := by
  cases op with
  | put path k a file => exact h.put hc path k a file
  | fill k text =>
    simpa [Settled, owners_step_fill, nextClaims, releases, claim?] using h
  | deleteFile id =>
    have hdelete := h.delete (c.get?_owners_deleteFile_or id key)
    simpa [nextClaims, releases, claim?, Catalog.step, takeFile] using hdelete
  | deletePath path =>
    cases hid : c.fileId? path with
    | none => simpa [nextClaims, releases, claim?, Catalog.step, takePath, hid] using h
    | some id =>
      have hdelete := h.delete (c.get?_owners_deleteFile_or id key)
      simpa [nextClaims, releases, claim?, Catalog.step, takePath, takeFile, hid] using hdelete

theorem Settled.run {c : Catalog} (hc : Consistent c) {key : String} {l : List Claim}
    (h : Settled c key l) (ops : List Op) : Settled (c.run ops) key (claimsFrom key c l ops) := by
  induction ops generalizing c l with
  | nil => exact h
  | cons op ops ih => exact ih (hc.step op) (h.step hc op)

/-! ## Takeovers -/

/-- A put for a file that is not compiled changes no owner. -/
theorem Consistent.get?_owners_put_of_not_compiled {c : Catalog} (h : Consistent c)
    {path : String} {file : Option File} (hcompiled : (c.recordFor path file).isCompiled = false)
    (key : String) (a : Artifact) {k : String} {o : Owner} (ho : c.owners.get? k = some o) :
    (c.put path key a file).2.owners.get? k = some o := by
  rw [owners_put, h.isCompiled_enroll, hcompiled]
  split
  · rename_i hclaim
    have hfree : c.owners.contains key = false := hclaim.2.resolve_left Bool.false_ne_true
    have hne : k ≠ key := by
      rintro rfl
      rw [OrderedMap.contains_of_get? ho] at hfree
      cases hfree
    rw [OrderedMap.get?_insert, if_neg hne, ho]
  · exact ho

/-- A put under an owned key moves no owner in the order of the keys. -/
theorem keys_owners_put {c : Catalog} {key : String} (hkey : c.owners.contains key = true)
    (path : String) (a : Artifact) (file : Option File) :
    (c.put path key a file).2.owners.keys = c.owners.keys := by
  rw [owners_put]
  split
  · exact OrderedMap.keys_insert_of_contains hkey _
  · rfl

/-- Ownership is decided by the claims of a key since a deletion last released it. The key is
owned if there is such a claim, and then by the path of the latest compiled one, or else of the
first one. A put for a file that is not compiled displaces no owner, and a takeover leaves the
keys in their order. -/
theorem run_owner_eq_winner (ops : List Op) (key : String) :
    let c := run ∅ ops
    (c.owners.contains key = true ↔ claims key ops ≠ []) ∧
    (∀ o, c.owners.get? key = some o → (winner? (claims key ops)).map Claim.path = some o.path) ∧
    (∀ path a file, (c.recordFor path file).isCompiled = false →
      ∀ k o, c.owners.get? k = some o → (c.put path key a file).2.owners.get? k = some o) ∧
    (∀ path a file, c.owners.contains key = true →
      (c.put path key a file).2.owners.keys = c.owners.keys) := by
  intro c
  have hc : Consistent c := run_consistent ops
  have hsettled : Settled c key (claims key ops) := Settled.run empty_consistent (empty_settled key) ops
  refine ⟨hsettled.contains_iff, ?_, ?_, ?_⟩
  · intro o ho
    rw [← hsettled, ho]
    rfl
  · intro path a file hcompiled k o ho
    exact hc.get?_owners_put_of_not_compiled hcompiled key a ho
  · intro path a file hkey
    exact keys_owners_put hkey path a file

end Catalog

end BuildRelay
