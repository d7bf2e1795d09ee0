/-
# Keeping first occurrences

Where several items of a list have the same key, the first of them stands for all.
-/

namespace ComponentTree

universe u

variable {α : Type u}

/-- The items of a list whose keys did not occur earlier, in their order. -/
def distinctBy (key : α → String) : List α → List α
  | [] => []
  | a :: rest => a :: (distinctBy key rest).filter fun b => key b ≠ key a

theorem distinctBy_sublist (key : α → String) (l : List α) : (distinctBy key l).Sublist l := by
  induction l with
  | nil => exact .slnil
  | cons a rest ih => exact (List.filter_sublist.trans ih).cons_cons a

theorem nodup_map_distinctBy (key : α → String) (l : List α) :
    ((distinctBy key l).map key).Nodup := by
  induction l with
  | nil => simp [distinctBy]
  | cons a rest ih =>
    simp only [distinctBy, List.map_cons, List.nodup_cons, List.mem_map, List.mem_filter]
    refine ⟨?_, ih.sublist (List.filter_sublist.map key)⟩
    rintro ⟨b, ⟨-, hb⟩, he⟩
    simp [he] at hb

/-- No key is lost. -/
theorem mem_map_distinctBy (key : α → String) (l : List α) (k : String) :
    k ∈ (distinctBy key l).map key ↔ k ∈ l.map key := by
  induction l with
  | nil => simp [distinctBy]
  | cons a rest ih =>
    by_cases h : k = key a
    · simp [distinctBy, h]
    · simp only [List.mem_map] at ih
      simp only [distinctBy, List.map_cons, List.mem_cons, h, false_or, List.mem_map,
        List.mem_filter, decide_eq_true_eq, ← ih]
      exact ⟨fun ⟨b, hb, he⟩ => ⟨b, hb.1, he⟩, fun ⟨b, hb, he⟩ => ⟨b, ⟨hb, he ▸ h⟩, he⟩⟩

/-- Where the items of one key are one and the same, no item is lost. -/
theorem mem_distinctBy_iff {key : α → String} {l : List α}
    (h : ∀ a ∈ l, ∀ b ∈ l, key a = key b → a = b) (a : α) : a ∈ distinctBy key l ↔ a ∈ l := by
  constructor
  · exact fun ha => (distinctBy_sublist key l).subset ha
  · intro ha
    have hkey : key a ∈ (distinctBy key l).map key :=
      (mem_map_distinctBy key l (key a)).mpr (List.mem_map_of_mem ha)
    obtain ⟨b, hb, he⟩ := List.mem_map.mp hkey
    rwa [← h b ((distinctBy_sublist key l).subset hb) a ha he]

/-- Of two rows the second adds the items whose keys the first has not. -/
theorem distinctBy_append (key : α → String) (l l' : List α) :
    distinctBy key (l ++ l') =
      distinctBy key l ++ (distinctBy key l').filter fun b => key b ∉ l.map key := by
  induction l with
  | nil => exact (List.filter_eq_self.mpr (by simp)).symm
  | cons a rest ih =>
    simp only [distinctBy, List.cons_append, ih, List.filter_append, List.filter_filter]
    congr 2
    refine List.filter_congr fun b _ => ?_
    simp

theorem distinctBy_eq_self {key : α → String} {l : List α} (h : (l.map key).Nodup) :
    distinctBy key l = l := by
  induction l with
  | nil => rfl
  | cons a rest ih =>
    rw [List.map_cons, List.nodup_cons] at h
    rw [distinctBy, ih h.2, List.filter_eq_self.mpr]
    intro b hb
    have hne : key b ≠ key a := fun he => h.1 (he ▸ List.mem_map_of_mem hb)
    exact decide_eq_true hne

end ComponentTree
