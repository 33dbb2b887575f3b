/-
BuildRelay.Proofs.Path.Memo — what a resolver remembers makes no difference to its answers.

A resolver looks a path up by the text that was asked and trusts what it finds there. That is right
because every answer that it keeps is the one that it would give anew (`Resolver.Faithful`), which
holds as long as the directory stays what it was, and the directory never changes. What it keeps is
an answer for each text that was ever asked, however often; two spellings of one path are two texts.

* `Resolver.Faithful` — the invariant of what is remembered.
* `Resolver.Faithful.answers_resolveAll`, `Resolver.mem_keys_memo_resolveAll` — the answers to any
  questions, and the texts that are remembered after them.
* `Resolver.resolveAll_transparent` — a fresh resolver, whatever it is asked.
-/
import BuildRelay.Settings.Placement
import Mathlib.Data.Finset.Card

namespace BuildRelay.Path.Resolver

/-! ## The invariant -/

/-- Every answer that is remembered is the right one. -/
def Faithful (r : Resolver) : Prop :=
  ∀ path answer, r.memo.get? path = some answer → answer = Path.resolve r.cwd path

theorem inDir_faithful (cwd : String) : (inDir cwd).Faithful := nofun

@[simp] theorem cwd_resolve (r : Resolver) (path : String) : (r.resolve path).2.cwd = r.cwd := by
  rw [resolve]
  split <;> rfl

theorem Faithful.answer {r : Resolver} (h : r.Faithful) (path : String) :
    (r.resolve path).1 = Path.resolve r.cwd path := by
  rw [Resolver.resolve]
  split
  · rename_i known hknown
    exact h path known hknown
  · rfl

theorem Faithful.resolve {r : Resolver} (h : r.Faithful) (path : String) :
    (r.resolve path).2.Faithful := by
  rw [Resolver.resolve]
  split
  · exact h
  · intro x answer hx
    rw [OrderedMap.get?_insert] at hx
    split at hx
    · rename_i heq
      cases hx
      rw [heq]
    · exact h x answer hx

theorem Faithful.resolveAll {r : Resolver} (h : r.Faithful) (l : List String) :
    (r.resolveAll l).2.Faithful ∧ (r.resolveAll l).2.cwd = r.cwd := by
  induction l generalizing r with
  | nil => exact ⟨h, rfl⟩
  | cons path l ih =>
    obtain ⟨hfaithful, hcwd⟩ := ih (h.resolve path)
    exact ⟨hfaithful, hcwd.trans (r.cwd_resolve path)⟩

/-! ## Any number of questions -/

/-- All answers are those that the paths have without a memory. -/
theorem Faithful.answers_resolveAll {r : Resolver} (h : r.Faithful) (asked : List String) :
    (r.resolveAll asked).1 = asked.map (Path.resolve r.cwd) := by
  induction asked generalizing r with
  | nil => rfl
  | cons path asked ih =>
    have hrest := ih (h.resolve path)
    rw [cwd_resolve] at hrest
    show (r.resolve path).1 :: ((r.resolve path).2.resolveAll asked).1 = _
    rw [h.answer, hrest, List.map_cons]

/-- A question is remembered, and nothing is forgotten for it. -/
theorem mem_keys_memo_resolve {r : Resolver} {path x : String} :
    x ∈ (r.resolve path).2.memo.keys ↔ x = path ∨ x ∈ r.memo.keys := by
  rw [resolve]
  split
  · rename_i known hknown
    have hkey : path ∈ r.memo.keys :=
      OrderedMap.mem_keys_iff.mpr (OrderedMap.contains_of_get? hknown)
    constructor
    · exact .inr
    · rintro (rfl | hx)
      · exact hkey
      · exact hx
  · simp [OrderedMap.mem_keys_iff]

theorem mem_keys_memo_resolveAll {r : Resolver} {asked : List String} {x : String} :
    x ∈ (r.resolveAll asked).2.memo.keys ↔ x ∈ asked ∨ x ∈ r.memo.keys := by
  induction asked generalizing r with
  | nil => simp [resolveAll]
  | cons path asked ih =>
    show x ∈ ((r.resolve path).2.resolveAll asked).2.memo.keys ↔ _
    rw [ih, mem_keys_memo_resolve, List.mem_cons, or_left_comm, or_assoc]

theorem remembered_eq_card (r : Resolver) : r.remembered = r.memo.keys.toFinset.card := by
  rw [OrderedMap.keys, List.toFinset_card_of_nodup r.memo.nodup_keys, List.length_map]
  rfl

/-- The memory of a resolver does not show in what it answers. Whatever directory it was made for and
whatever it is asked, in any order and any number of times, each answer is the one that the same text
has when it is resolved from the working directory without a memory; the working directory stays the
same; and there are as many answers remembered as different texts have been asked. -/
theorem resolveAll_transparent (dir : String) (asked : List String) :
    ((inDir dir).resolveAll asked).1 = asked.map (Path.resolve (inDir dir).cwd) ∧
    ((inDir dir).resolveAll asked).2.cwd = (inDir dir).cwd ∧
    ((inDir dir).resolveAll asked).2.remembered = asked.toFinset.card := by
  have hfaithful : (inDir dir).Faithful := inDir_faithful dir
  have hkeys : ((inDir dir).resolveAll asked).2.memo.keys.toFinset = asked.toFinset := by
    ext x
    rw [List.mem_toFinset, List.mem_toFinset, mem_keys_memo_resolveAll]
    exact or_iff_left List.not_mem_nil
  refine ⟨hfaithful.answers_resolveAll asked, (hfaithful.resolveAll asked).2, ?_⟩
  rw [remembered_eq_card, hkeys]

/-- Two spellings of one path and a repetition: one answer, and two texts to remember. -/
example :
    let (answers, r) := (inDir "/w").resolveAll ["a.ts", "./a.ts", "a.ts"]
    answers = ["/w/a.ts", "/w/a.ts", "/w/a.ts"] ∧ r.remembered = 2 := by
  decide

end BuildRelay.Path.Resolver
