/-
# Finite maps with string keys

Properties, type defaults, constraints, the components of a forest and the entries of a
folder are all finite maps keyed by text.  A `Dict` keeps its entries in one list, in
ascending order of the keys, and no key twice.  The order of two keys is that of their
UTF-8 bytes, which for text is the order of the code points, hence `<` on `String`.

Because the list is determined by the look-ups, two maps with the same look-ups are the
same value (`Dict.ext_get?`); everything else about a map is said by `get?_empty`,
`get?_insert` and `get?_erase`.
-/

namespace ComponentTree

universe u

/-- A finite map from text to `α`, its entries in ascending order of their keys. -/
structure Dict (α : Type u) where
  /-- The entries, each key once. -/
  entries : List (String × α)
  /-- The keys ascend. -/
  ascending : entries.Pairwise fun a b => a.1 < b.1

namespace Dict

variable {α : Type u}

/-- A key that is not above another and differs from it is below it. -/
theorem lt_of_not_lt_of_ne {a b : String} (h : ¬ a < b) (hne : a ≠ b) : b < a := by
  rcases String.le_total b a with hle | hle
  · rcases Decidable.em (b < a) with hlt | hlt
    · exact hlt
    · exact absurd (String.le_antisymm (String.not_lt.mp hlt) hle) hne
  · exact absurd (String.le_antisymm hle (String.not_lt.mp h)) hne

/-! ### Entries in ascending order -/

/-- Put a value at its place among ascending entries, over any value the key had. -/
def insertEntry (key : String) (value : α) : List (String × α) → List (String × α)
  | [] => [(key, value)]
  | (k, v) :: rest =>
    if key < k then (key, value) :: (k, v) :: rest
    else if key = k then (key, value) :: rest
    else (k, v) :: insertEntry key value rest

theorem mem_insertEntry {key : String} {value : α} {e : String × α} :
    ∀ {l : List (String × α)}, e ∈ insertEntry key value l → e = (key, value) ∨ e ∈ l
  | [], h => by simpa [insertEntry] using h
  | (k, v) :: rest, h => by
    rw [insertEntry] at h
    split at h
    · simpa using h
    · split at h
      · rcases List.mem_cons.mp h with h | h
        · exact .inl h
        · exact .inr (List.mem_cons_of_mem _ h)
      · rcases List.mem_cons.mp h with h | h
        · exact .inr (h ▸ List.mem_cons_self)
        · exact (mem_insertEntry h).imp id (List.mem_cons_of_mem _)

theorem pairwise_insertEntry (key : String) (value : α) :
    ∀ {l : List (String × α)}, (l.Pairwise fun a b => a.1 < b.1) →
      (insertEntry key value l).Pairwise fun a b => a.1 < b.1
  | [], _ => by simp [insertEntry]
  | (k, v) :: rest, h => by
    obtain ⟨hk, hrest⟩ := List.pairwise_cons.mp h
    rw [insertEntry]
    split
    · next hlt =>
      refine List.pairwise_cons.mpr ⟨fun e he => ?_, h⟩
      rcases List.mem_cons.mp he with rfl | he
      · exact hlt
      · exact String.lt_trans hlt (hk e he)
    · next hlt =>
      split
      · next heq => exact List.pairwise_cons.mpr ⟨fun e he => heq ▸ hk e he, hrest⟩
      · next hne =>
        refine List.pairwise_cons.mpr ⟨fun e he => ?_, pairwise_insertEntry key value hrest⟩
        rcases mem_insertEntry he with rfl | he
        · exact lt_of_not_lt_of_ne hlt hne
        · exact hk e he

/-! ### The operations -/

/-- The map without entries. -/
def empty : Dict α := ⟨[], .nil⟩

instance : EmptyCollection (Dict α) := ⟨empty⟩

instance : Inhabited (Dict α) := ⟨empty⟩

/-- The value of a key, if it has one. -/
def get? (d : Dict α) (key : String) : Option α := d.entries.lookup key

/-- Whether a key has a value. -/
def contains (d : Dict α) (key : String) : Bool := (d.get? key).isSome

/-- Give a key a value, over any it had. -/
def insert (d : Dict α) (key : String) (value : α) : Dict α :=
  ⟨insertEntry key value d.entries, pairwise_insertEntry key value d.ascending⟩

/-- Take a key out. -/
def erase (d : Dict α) (key : String) : Dict α :=
  ⟨d.entries.filter (·.1 ≠ key), d.ascending.filter _⟩

/-- The map of a list of entries; of a key given twice the later value counts. -/
def ofList (entries : List (String × α)) : Dict α :=
  entries.foldl (fun d e => d.insert e.1 e.2) empty

/-- The keys, ascending. -/
def keys (d : Dict α) : List String := d.entries.map (·.1)

/-- The values, in the order of their keys. -/
def values (d : Dict α) : List α := d.entries.map (·.2)

/-- How many keys have a value. -/
def size (d : Dict α) : Nat := d.entries.length

/-- Whether no key has a value. -/
def isEmpty (d : Dict α) : Bool := d.entries.isEmpty

/-- Two maps are equal when their entries are, values compared by `==`. -/
instance [BEq α] : BEq (Dict α) := ⟨fun a b => a.entries == b.entries⟩

instance [DecidableEq α] : DecidableEq (Dict α) := fun a b =>
  if h : a.entries = b.entries then
    .isTrue (by cases a; cases b; simp_all)
  else .isFalse (fun e => h (e ▸ rfl))

/-! ### What a look-up finds -/

@[simp] theorem get?_empty (key : String) : (∅ : Dict α).get? key = none := rfl

theorem lookup_cons_eq (key k : String) (v : α) (rest : List (String × α)) :
    ((k, v) :: rest).lookup key = if key = k then some v else rest.lookup key := by
  rw [List.lookup_cons]
  by_cases h : key = k
  · simp [h]
  · rw [beq_false_of_ne h, if_neg h]

theorem lookup_insertEntry (key k : String) (value : α) (l : List (String × α)) :
    (insertEntry key value l).lookup k = if k = key then some value else l.lookup k := by
  induction l with
  | nil => simp [insertEntry, lookup_cons_eq]
  | cons e rest ih =>
    obtain ⟨k', v'⟩ := e
    rw [insertEntry]
    split
    · rw [lookup_cons_eq]
    · split
      · next heq =>
        subst heq
        rw [lookup_cons_eq, lookup_cons_eq]
        split <;> rfl
      · next hne =>
        rw [lookup_cons_eq, ih, lookup_cons_eq]
        by_cases h : k = key
        · subst h; simp [hne]
        · simp [h]

theorem get?_insert (d : Dict α) (key k : String) (value : α) :
    (d.insert key value).get? k = if k = key then some value else d.get? k :=
  lookup_insertEntry key k value d.entries

@[simp] theorem get?_insert_self (d : Dict α) (key : String) (value : α) :
    (d.insert key value).get? key = some value := by simp [get?_insert]

theorem get?_insert_of_ne (d : Dict α) {key k : String} (h : k ≠ key) (value : α) :
    (d.insert key value).get? k = d.get? k := by simp [get?_insert, h]

theorem get?_erase (d : Dict α) (key k : String) :
    (d.erase key).get? k = if k = key then none else d.get? k := by
  show (d.entries.filter (·.1 ≠ key)).lookup k = if k = key then none else d.entries.lookup k
  induction d.entries with
  | nil => simp
  | cons e rest ih =>
    obtain ⟨k', v'⟩ := e
    by_cases h' : k' = key
    · subst h'
      rw [List.filter_cons_of_neg (by simp), ih, lookup_cons_eq]
      by_cases h : k = k' <;> simp [h]
    · rw [List.filter_cons_of_pos (by simp [h']), lookup_cons_eq, lookup_cons_eq, ih]
      by_cases h : k = k'
      · subst h; simp [h']
      · simp [h]

@[simp] theorem get?_erase_self (d : Dict α) (key : String) : (d.erase key).get? key = none := by
  rw [get?_erase, if_pos rfl]

theorem get?_erase_of_ne (d : Dict α) {key k : String} (h : k ≠ key) :
    (d.erase key).get? k = d.get? k := by rw [get?_erase, if_neg h]

theorem contains_iff (d : Dict α) (key : String) :
    d.contains key = true ↔ ∃ v, d.get? key = some v := by
  simp [contains, Option.isSome_iff_exists]

/-- The entries are what the look-ups find. -/
theorem mem_entries_iff (d : Dict α) (key : String) (value : α) :
    (key, value) ∈ d.entries ↔ d.get? key = some value := by
  obtain ⟨l, hl⟩ := d
  show (key, value) ∈ l ↔ l.lookup key = some value
  induction l with
  | nil => simp
  | cons e rest ih =>
    obtain ⟨k, v⟩ := e
    obtain ⟨hk, hrest⟩ := List.pairwise_cons.mp hl
    rw [lookup_cons_eq, List.mem_cons]
    by_cases h : key = k
    · subst h
      have hnot : (key, value) ∉ rest := fun hm => String.lt_irrefl key (hk _ hm)
      simp [hnot, eq_comm]
    · simp [h, ih hrest]

theorem mem_keys_iff (d : Dict α) (key : String) : key ∈ d.keys ↔ d.contains key = true := by
  rw [keys, List.mem_map, contains_iff]
  constructor
  · rintro ⟨e, he, rfl⟩
    exact ⟨e.2, (d.mem_entries_iff e.1 e.2).mp he⟩
  · rintro ⟨value, h⟩
    exact ⟨(key, value), (d.mem_entries_iff key value).mpr h, rfl⟩

/-- No key comes twice. -/
theorem nodup_keys (d : Dict α) : d.keys.Nodup := by
  refine (List.pairwise_map.mpr d.ascending).imp fun {a b} hlt he => ?_
  exact String.lt_irrefl b (he ▸ hlt)

/-- The map of a list with one more entry at its end. -/
theorem ofList_concat (entries : List (String × α)) (e : String × α) :
    ofList (entries ++ [e]) = (ofList entries).insert e.1 e.2 := List.foldl_append

theorem get?_foldl_insert {entries : List (String × α)} (h : (entries.map (·.1)).Nodup)
    {d : Dict α} (hd : ∀ e ∈ entries, d.get? e.1 = none) (key : String) (value : α) :
    (entries.foldl (fun d e => d.insert e.1 e.2) d).get? key = some value ↔
      (key, value) ∈ entries ∨ d.get? key = some value := by
  induction entries generalizing d with
  | nil => simp
  | cons e rest ih =>
    obtain ⟨k, v⟩ := e
    rw [List.map_cons, List.nodup_cons] at h
    have hrest : ∀ e ∈ rest, (d.insert k v).get? e.1 = none := by
      intro e he
      have hne : e.1 ≠ k := by
        rintro rfl
        exact h.1 (List.mem_map.mpr ⟨e, he, rfl⟩)
      rw [get?_insert_of_ne d hne, hd e (List.mem_cons_of_mem _ he)]
    rw [List.foldl_cons, ih h.2 hrest, get?_insert, List.mem_cons, Prod.mk.injEq]
    by_cases hk : key = k
    · subst hk
      have hnone : d.get? key = none := hd (key, v) List.mem_cons_self
      simp [hnone, or_comm, eq_comm]
    · simp [hk]

/-- The map of a list in which no key is given twice has its entries. -/
theorem get?_ofList_iff {entries : List (String × α)} (h : (entries.map (·.1)).Nodup)
    (key : String) (value : α) :
    (ofList entries).get? key = some value ↔ (key, value) ∈ entries := by
  refine (get?_foldl_insert h (d := ∅) (fun _ _ => rfl) key value).trans ?_
  simp

/-- Items with different keys are found under their keys. -/
theorem get?_ofList_map_iff {key : α → String} {l : List α} (h : (l.map key).Nodup)
    (k : String) (a : α) :
    (ofList (l.map fun a => (key a, a))).get? k = some a ↔ a ∈ l ∧ key a = k := by
  have hkeys : ((l.map fun a => (key a, a)).map (·.1)).Nodup := by rwa [List.map_map]
  rw [get?_ofList_iff hkeys, List.mem_map]
  constructor
  · rintro ⟨b, hb, he⟩
    obtain ⟨hk, rfl⟩ := Prod.mk.inj he
    exact ⟨hb, hk⟩
  · rintro ⟨ha, rfl⟩
    exact ⟨a, ha, rfl⟩

theorem size_erase_lt (d : Dict α) {key : String} {value : α} (h : d.get? key = some value) :
    (d.erase key).size < d.size := by
  have hm := (d.mem_entries_iff key value).mpr h
  show (d.entries.filter (·.1 ≠ key)).length < d.entries.length
  exact List.length_filter_lt_length_iff_exists.mpr ⟨_, hm, by simp⟩

/-- **A map is determined by its look-ups.** -/
theorem ext_get? {a b : Dict α} (h : ∀ key, a.get? key = b.get? key) : a = b := by
  obtain ⟨la, ha⟩ := a
  obtain ⟨lb, hb⟩ := b
  have hmem : ∀ e, e ∈ la ↔ e ∈ lb := by
    intro e
    rw [mem_entries_iff ⟨la, ha⟩ e.1 e.2, mem_entries_iff ⟨lb, hb⟩ e.1 e.2, h]
  have key : la = lb := by
    clear h
    induction la generalizing lb with
    | nil =>
      cases lb with
      | nil => rfl
      | cons e _ => exact absurd ((hmem e).mpr List.mem_cons_self) (by simp)
    | cons x xs ih =>
      cases lb with
      | nil => exact absurd ((hmem x).mp List.mem_cons_self) (by simp)
      | cons y ys =>
        obtain ⟨hx, hxs⟩ := List.pairwise_cons.mp ha
        obtain ⟨hy, hys⟩ := List.pairwise_cons.mp hb
        have hxy : x = y := by
          rcases List.mem_cons.mp ((hmem x).mp List.mem_cons_self) with h1 | h1
          · exact h1
          · rcases List.mem_cons.mp ((hmem y).mpr List.mem_cons_self) with h2 | h2
            · exact h2.symm
            · exact absurd (hx y h2) (String.lt_asymm (hy x h1))
        subst hxy
        refine congrArg (x :: ·) (ih hxs ys hys fun e => ?_)
        have := hmem e
        simp only [List.mem_cons] at this
        constructor
        · intro he
          rcases this.mp (.inr he) with rfl | he'
          · exact absurd (hx e he) (String.lt_irrefl _)
          · exact he'
        · intro he
          rcases this.mpr (.inr he) with rfl | he'
          · exact absurd (hy e he) (String.lt_irrefl _)
          · exact he'
  subst key
  rfl

/-! ### One operation after another -/

theorem insert_insert (d : Dict α) (key : String) (value value' : α) :
    (d.insert key value).insert key value' = d.insert key value' := by
  refine ext_get? fun k => ?_
  rw [get?_insert, get?_insert, get?_insert]
  split <;> rfl

theorem insert_eq_self (d : Dict α) {key : String} {value : α} (h : d.get? key = some value) :
    d.insert key value = d := by
  refine ext_get? fun k => ?_
  rw [get?_insert]
  split
  · next hk => rw [hk, h]
  · rfl

theorem insert_erase (d : Dict α) {key : String} {value : α} (h : d.get? key = some value) :
    (d.erase key).insert key value = d := by
  refine ext_get? fun k => ?_
  rw [get?_insert, get?_erase]
  split
  · next hk => rw [hk, h]
  · rfl

theorem erase_comm (d : Dict α) (key key' : String) :
    (d.erase key).erase key' = (d.erase key').erase key := by
  refine ext_get? fun k => ?_
  rw [get?_erase, get?_erase, get?_erase, get?_erase]
  split <;> split <;> rfl

theorem erase_insert (d : Dict α) {key : String} (h : d.get? key = none) (value : α) :
    (d.insert key value).erase key = d := by
  refine ext_get? fun k => ?_
  rw [get?_erase, get?_insert]
  split
  · next hk => rw [hk, h]
  · rfl

end Dict

end ComponentTree
