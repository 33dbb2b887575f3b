/-
BuildRelay.Data.OrderedMap — finite maps that remember the order in which their keys arrived.

Option bags, stores, owners and project sets are all shown in arrival order, so the order is part
of the type: the entries are a list, and no key occurs twice in it. Writing to a key that is
present keeps its position, writing to a new key appends, and deleting keeps the order of the rest.
-/

namespace BuildRelay

universe u v w

/-! ## Entry lists -/

namespace Entries

variable {κ : Type u} {α : Type v} [DecidableEq κ]

/-- The value at a key, if the list has one. -/
def get? (k : κ) : List (κ × α) → Option α
  | [] => none
  | (k', v) :: rest => if k' = k then some v else get? k rest

/-- Overwrites the value at `k` in place, or appends the pair. -/
def put (k : κ) (v : α) : List (κ × α) → List (κ × α)
  | [] => [(k, v)]
  | (k', v') :: rest => if k' = k then (k, v) :: rest else (k', v') :: put k v rest

/-- Applies `f` to the value at `k`, wherever it stands. -/
def adjust (k : κ) (f : α → α) (l : List (κ × α)) : List (κ × α) :=
  l.map fun e => (e.1, if e.1 = k then f e.2 else e.2)

theorem mem_keys_put {k x : κ} {v : α} {l : List (κ × α)} :
    x ∈ (put k v l).map Prod.fst ↔ x = k ∨ x ∈ l.map Prod.fst := by
  induction l with
  | nil => simp [put]
  | cons e rest ih =>
    obtain ⟨k', v'⟩ := e
    simp only [put]
    split
    · rename_i h; subst h; simp
    · simp only [List.map_cons, List.mem_cons, ih]
      constructor
      · rintro (h | h | h)
        · exact .inr (.inl h)
        · exact .inl h
        · exact .inr (.inr h)
      · rintro (h | h | h)
        · exact .inr (.inl h)
        · exact .inl h
        · exact .inr (.inr h)

theorem nodup_keys_put {k : κ} {v : α} {l : List (κ × α)} (h : (l.map Prod.fst).Nodup) :
    ((put k v l).map Prod.fst).Nodup := by
  induction l with
  | nil => simp [put]
  | cons e rest ih =>
    obtain ⟨k', v'⟩ := e
    simp only [List.map_cons, List.nodup_cons] at h
    simp only [put]
    split
    · rename_i hk; subst hk
      simpa using h
    · rename_i hk
      simp only [List.map_cons, List.nodup_cons, mem_keys_put, not_or]
      exact ⟨⟨hk, h.1⟩, ih h.2⟩

@[simp] theorem keys_adjust {k : κ} {f : α → α} {l : List (κ × α)} :
    (adjust k f l).map Prod.fst = l.map Prod.fst := by
  simp [adjust, Function.comp_def]

end Entries

/-! ## The map -/

/-- A finite map whose keys keep the order of their arrival. -/
@[ext] structure OrderedMap (κ : Type u) (α : Type v) where
  /-- The pairs, oldest key first. -/
  entries : List (κ × α)
  /-- No key occurs twice. -/
  nodup_keys : (entries.map Prod.fst).Nodup

namespace OrderedMap

variable {κ : Type u} {α : Type v} [DecidableEq κ]

instance [DecidableEq α] : DecidableEq (OrderedMap κ α) := fun a b =>
  decidable_of_iff (a.entries = b.entries) OrderedMap.ext_iff.symm

/-- The map without keys. -/
def empty : OrderedMap κ α := ⟨[], List.nodup_nil⟩

instance : EmptyCollection (OrderedMap κ α) := ⟨empty⟩

instance : Inhabited (OrderedMap κ α) := ⟨empty⟩

/-- The value at a key. -/
def get? (m : OrderedMap κ α) (k : κ) : Option α := Entries.get? k m.entries

/-- Whether the key is present. -/
def contains (m : OrderedMap κ α) (k : κ) : Bool := (m.get? k).isSome

/-- The keys in order of arrival. -/
def keys (m : OrderedMap κ α) : List κ := m.entries.map Prod.fst

/-- The number of keys. -/
def size (m : OrderedMap κ α) : Nat := m.entries.length

/-- Whether there is no key. -/
def isEmpty (m : OrderedMap κ α) : Bool := m.entries.isEmpty

/-- Writes a value: in place if the key is present, at the end otherwise. -/
def insert (m : OrderedMap κ α) (k : κ) (v : α) : OrderedMap κ α :=
  ⟨Entries.put k v m.entries, Entries.nodup_keys_put m.nodup_keys⟩

/-- Applies a function to the value at a key; an absent key changes nothing. -/
def modify (m : OrderedMap κ α) (k : κ) (f : α → α) : OrderedMap κ α :=
  ⟨Entries.adjust k f m.entries, by simpa using m.nodup_keys⟩

/-- Keeps the pairs that satisfy `p`, in their order. -/
def filter (m : OrderedMap κ α) (p : κ → α → Bool) : OrderedMap κ α :=
  ⟨m.entries.filter fun e => p e.1 e.2,
    m.nodup_keys.sublist (List.filter_sublist.map Prod.fst)⟩

/-- Removes a key; the others keep their order. -/
def erase (m : OrderedMap κ α) (k : κ) : OrderedMap κ α := m.filter fun k' _ => k' ≠ k

/-- Writes the pairs one after the other, so the last value of a key wins. -/
def insertAll (m : OrderedMap κ α) (l : List (κ × α)) : OrderedMap κ α :=
  l.foldl (fun m e => m.insert e.1 e.2) m

/-- Lays `upper` over `lower`: its values replace those under the same keys, whole. -/
def layer (lower upper : OrderedMap κ α) : OrderedMap κ α := lower.insertAll upper.entries

/-- The map of a list of pairs. -/
def ofList (l : List (κ × α)) : OrderedMap κ α := empty.insertAll l

/-! ### What each operation does to a lookup -/

@[simp] theorem get?_empty (k : κ) : (∅ : OrderedMap κ α).get? k = none := rfl

theorem get?_insert (m : OrderedMap κ α) (k x : κ) (v : α) :
    (m.insert k v).get? x = if x = k then some v else m.get? x := by
  obtain ⟨l, h⟩ := m
  simp only [get?, insert]
  clear h
  induction l with
  | nil => simp [Entries.put, Entries.get?, eq_comm]
  | cons e rest ih =>
    obtain ⟨k', v'⟩ := e
    by_cases hk : k' = k
    · subst hk
      by_cases hx : x = k' <;> simp [Entries.put, Entries.get?, hx, eq_comm]
    · by_cases hx : x = k
      · subst hx; simp [Entries.put, Entries.get?, hk, ih]
      · simp [Entries.put, Entries.get?, hk, ih, hx]

theorem get?_modify (m : OrderedMap κ α) (k x : κ) (f : α → α) :
    (m.modify k f).get? x = if x = k then (m.get? x).map f else m.get? x := by
  obtain ⟨l, h⟩ := m
  simp only [get?, modify]
  clear h
  induction l with
  | nil => simp [Entries.adjust, Entries.get?]
  | cons e rest ih =>
    obtain ⟨k', v'⟩ := e
    simp only [Entries.adjust, List.map_cons, Entries.get?] at ih ⊢
    by_cases hx : k' = x
    · subst hx; by_cases hk : k' = k <;> simp [hk]
    · simpa [hx] using ih

theorem mem_entries_of_get? {m : OrderedMap κ α} {k : κ} {v : α} (h : m.get? k = some v) :
    (k, v) ∈ m.entries := by
  obtain ⟨l, hn⟩ := m
  simp only [get?] at h ⊢
  clear hn
  induction l with
  | nil => simp [Entries.get?] at h
  | cons e rest ih =>
    obtain ⟨k', v'⟩ := e
    simp only [Entries.get?] at h
    split at h
    · rename_i hk; subst hk; cases h; simp
    · exact List.mem_cons_of_mem _ (ih h)

theorem get?_of_mem_entries {m : OrderedMap κ α} {k : κ} {v : α} (h : (k, v) ∈ m.entries) :
    m.get? k = some v := by
  obtain ⟨l, hn⟩ := m
  simp only [get?] at h ⊢
  induction l with
  | nil => simp at h
  | cons e rest ih =>
    obtain ⟨k', v'⟩ := e
    simp only [List.map_cons, List.nodup_cons, List.mem_map, not_exists, not_and] at hn
    rcases List.mem_cons.mp h with heq | hmem
    · cases heq; simp [Entries.get?]
    · have hne : k' ≠ k := fun hk => hn.1 (k, v) hmem hk.symm
      simpa [Entries.get?, hne] using ih hn.2 hmem

/-- A lookup answers exactly with the pairs of the map. -/
theorem get?_eq_some_iff {m : OrderedMap κ α} {k : κ} {v : α} :
    m.get? k = some v ↔ (k, v) ∈ m.entries :=
  ⟨mem_entries_of_get?, get?_of_mem_entries⟩

/-- Writing the value that is there changes nothing. -/
theorem insert_of_get? {m : OrderedMap κ α} {k : κ} {v : α} (h : m.get? k = some v) :
    m.insert k v = m := by
  obtain ⟨l, hn⟩ := m
  apply OrderedMap.ext
  simp only [get?, insert] at h ⊢
  clear hn
  induction l with
  | nil => simp [Entries.get?] at h
  | cons e rest ih =>
    obtain ⟨k', v'⟩ := e
    simp only [Entries.get?] at h
    simp only [Entries.put]
    split at h
    · rename_i hk
      cases h
      rw [if_pos hk, hk]
    · rename_i hk
      rw [if_neg hk, ih h]

/-- A function that leaves the value as it is changes nothing. -/
theorem modify_of_get? {m : OrderedMap κ α} {k : κ} {f : α → α}
    (h : ∀ v, m.get? k = some v → f v = v) : m.modify k f = m := by
  apply OrderedMap.ext
  show m.entries.map _ = m.entries
  refine (List.map_congr_left fun e he => ?_).trans (List.map_id m.entries)
  by_cases hk : e.1 = k
  · rw [if_pos hk, h e.2 (get?_of_mem_entries (hk ▸ he))]
    rfl
  · rw [if_neg hk]
    rfl

theorem get?_filter (m : OrderedMap κ α) (p : κ → α → Bool) (k : κ) :
    (m.filter p).get? k = (m.get? k).filter (p k) := by
  apply Option.ext
  intro v
  simp only [get?_eq_some_iff, Option.filter_eq_some_iff]
  simp [filter]

/-- A filter that every pair passes changes nothing. -/
theorem filter_eq_self {m : OrderedMap κ α} {p : κ → α → Bool} :
    m.filter p = m ↔ ∀ k v, m.get? k = some v → p k v = true := by
  rw [OrderedMap.ext_iff]
  simp only [filter, List.filter_eq_self, Prod.forall, get?_eq_some_iff]

theorem get?_erase (m : OrderedMap κ α) (k x : κ) :
    (m.erase k).get? x = if x = k then none else m.get? x := by
  rw [erase, get?_filter]
  by_cases h : x = k
  · simp [h, Option.filter]; cases m.get? k <;> rfl
  · simp [h, Option.filter]; cases m.get? x <;> rfl

/-- The last value that a list gives for a key wins over what was there. -/
theorem get?_insertAll (m : OrderedMap κ α) (l : List (κ × α)) (k : κ) :
    (m.insertAll l).get? k =
      (((l.filter fun e => e.1 = k).getLast?).map Prod.snd).or (m.get? k) := by
  induction l generalizing m with
  | nil => rfl
  | cons e l ih =>
    show ((m.insert e.1 e.2).insertAll l).get? k = _
    rw [ih, get?_insert, List.filter_cons]
    by_cases hk : e.1 = k
    · rw [if_pos hk.symm, if_pos (decide_eq_true hk), List.getLast?_cons]
      cases (l.filter fun e => e.1 = k).getLast? <;> rfl
    · rw [if_neg (Ne.symm hk), if_neg fun h => hk (of_decide_eq_true h)]

/-- A map has one pair for a key at most. -/
theorem getLast?_filter_entries (m : OrderedMap κ α) (k : κ) :
    ((m.entries.filter fun e => e.1 = k).getLast?).map Prod.snd = m.get? k := by
  cases hlast : (m.entries.filter fun e => e.1 = k).getLast? with
  | none =>
    rw [List.getLast?_eq_none_iff, List.filter_eq_nil_iff] at hlast
    cases hk : m.get? k with
    | none => rfl
    | some v => exact absurd (decide_eq_true rfl) (hlast (k, v) (mem_entries_of_get? hk))
  | some e =>
    obtain ⟨hmem, hk⟩ := List.mem_filter.mp (List.mem_of_getLast? hlast)
    cases of_decide_eq_true hk
    exact (get?_of_mem_entries hmem).symm

theorem get?_layer (lower upper : OrderedMap κ α) (k : κ) :
    (lower.layer upper).get? k = (upper.get? k).or (lower.get? k) := by
  rw [layer, get?_insertAll, getLast?_filter_entries]

/-! ### Presence and order of keys -/

theorem contains_of_get? {m : OrderedMap κ α} {k : κ} {v : α} (h : m.get? k = some v) :
    m.contains k = true := by
  rw [contains, h]; rfl

theorem contains_iff {m : OrderedMap κ α} {k : κ} :
    m.contains k = true ↔ ∃ v, m.get? k = some v := Option.isSome_iff_exists

@[simp] theorem contains_insert (m : OrderedMap κ α) (k x : κ) (v : α) :
    (m.insert k v).contains x = (decide (x = k) || m.contains x) := by
  by_cases h : x = k <;> simp [contains, get?_insert, h]

@[simp] theorem contains_modify (m : OrderedMap κ α) (k x : κ) (f : α → α) :
    (m.modify k f).contains x = m.contains x := by
  by_cases h : x = k <;> simp [contains, get?_modify, h]

theorem eq_empty_iff {m : OrderedMap κ α} : m = ∅ ↔ ∀ k, m.contains k = false := by
  constructor
  · rintro rfl k
    rfl
  · intro h
    apply OrderedMap.ext
    show m.entries = []
    rw [List.eq_nil_iff_forall_not_mem]
    rintro ⟨k, v⟩ hmem
    have hfree := h k
    rw [contains_of_get? (get?_of_mem_entries hmem)] at hfree
    cases hfree

theorem mem_keys_iff {m : OrderedMap κ α} {k : κ} : k ∈ m.keys ↔ m.contains k = true := by
  rw [contains_iff, keys, List.mem_map]
  constructor
  · rintro ⟨⟨k', v⟩, hmem, rfl⟩
    exact ⟨v, get?_of_mem_entries hmem⟩
  · rintro ⟨v, hv⟩
    exact ⟨(k, v), mem_entries_of_get? hv, rfl⟩

/-- Writing to a present key moves nothing, so whoever sees no difference between the new value and
the old one sees the same list. -/
theorem map_entries_insert {β : Type w} {m : OrderedMap κ α} {k : κ} {old new : α}
    {f : κ × α → β} (h : m.get? k = some old) (hf : f (k, new) = f (k, old)) :
    (m.insert k new).entries.map f = m.entries.map f := by
  obtain ⟨l, hn⟩ := m
  simp only [get?, insert] at h ⊢
  clear hn
  induction l with
  | nil => simp [Entries.get?] at h
  | cons e rest ih =>
    obtain ⟨k', v'⟩ := e
    simp only [Entries.get?] at h
    simp only [Entries.put]
    split at h
    · rename_i hk
      cases h
      subst hk
      simp [hf]
    · rename_i hk
      simp [hk, ih h]

theorem keys_insert_of_contains {m : OrderedMap κ α} {k : κ} (h : m.contains k = true) (v : α) :
    (m.insert k v).keys = m.keys := by
  obtain ⟨old, hold⟩ := contains_iff.mp h
  exact map_entries_insert hold rfl

/-- A new key comes last. -/
theorem entries_insert_of_not_contains {m : OrderedMap κ α} {k : κ} (h : m.contains k = false)
    (v : α) : (m.insert k v).entries = m.entries ++ [(k, v)] := by
  obtain ⟨l, hn⟩ := m
  simp only [contains, get?, insert] at h ⊢
  clear hn
  induction l with
  | nil => rfl
  | cons e rest ih =>
    obtain ⟨k', v'⟩ := e
    simp only [Entries.get?] at h
    simp only [Entries.put]
    split at h
    · cases h
    · rename_i hk
      simp [hk, ih h]

theorem keys_insert (m : OrderedMap κ α) (k : κ) (v : α) :
    (m.insert k v).keys = if m.contains k then m.keys else m.keys ++ [k] := by
  cases hk : m.contains k with
  | true => rw [if_pos rfl, keys_insert_of_contains hk]
  | false =>
    rw [if_neg Bool.false_ne_true, keys, entries_insert_of_not_contains hk, List.map_append]
    rfl

/-- The keys of a map stay where they are when pairs are written into it, and those that are new come
after them. -/
theorem keys_insertAll (m : OrderedMap κ α) {l : List (κ × α)} (h : (l.map Prod.fst).Nodup) :
    (m.insertAll l).keys = m.keys ++ (l.map Prod.fst).filter fun k => !m.contains k := by
  induction l generalizing m with
  | nil => exact (List.append_nil m.keys).symm
  | cons e l ih =>
    rw [List.map_cons, List.nodup_cons] at h
    obtain ⟨honce, hrest⟩ := h
    -- The first key does not come again, so to the others it makes no difference that it is there.
    have hothers : (l.map Prod.fst).filter (fun k => !(m.insert e.1 e.2).contains k) =
        (l.map Prod.fst).filter fun k => !m.contains k := by
      refine List.filter_congr fun k hk => ?_
      have hne : k ≠ e.1 := fun heq => honce (heq ▸ hk)
      simp [hne]
    show ((m.insert e.1 e.2).insertAll l).keys = _
    rw [ih _ hrest, hothers, keys_insert, List.map_cons]
    cases hk : m.contains e.1 <;> simp [hk]

/-- A map is made of its keys, in their order, and of what it answers at each. -/
theorem ext_keys {m n : OrderedMap κ α} (hkeys : m.keys = n.keys)
    (hvalues : ∀ k, m.get? k = n.get? k) : m = n := by
  have hentries : ∀ x : OrderedMap κ α,
      x.entries.map some = x.keys.map fun k => (x.get? k).map (Prod.mk k) := by
    intro x
    rw [keys, List.map_map]
    refine List.map_congr_left fun e he => ?_
    simp [get?_of_mem_entries he]
  apply OrderedMap.ext
  refine (List.map_inj_right fun _ _ => Option.some.inj).mp ?_
  rw [hentries, hentries, hkeys]
  simp only [hvalues]

end OrderedMap

end BuildRelay
