import Mathlib

/-!
Maps filled by one assignment per element of a list.

Where the keys of the elements are distinct, the order of the assignments does not
matter: each element's key has that element's value, and every other key keeps what it
had before. With repeated keys, a value is still one of those that were assigned.
-/

namespace Assignment

variable {α κ β : Type} [Ord κ] [Std.TransOrd κ] [Std.LawfulEqOrd κ] [BEq κ] [LawfulBEq κ]
  {key : α → κ} {value : α → β} {elements : List α}

omit [Std.LawfulEqOrd κ] [BEq κ] [LawfulBEq κ] in
theorem foldl_insert_eq (key : α → κ) (value : α → β) (elements : List α)
    (map : Std.ExtTreeMap κ β) :
    elements.foldl (fun map a => map.insert (key a) (value a)) map =
      map.insertMany (elements.map fun a => (key a, value a)) := by
  induction elements generalizing map with
  | nil => rw [List.foldl_nil, List.map_nil, Std.ExtTreeMap.insertMany_nil]
  | cons a elements ih =>
      rw [List.foldl_cons, List.map_cons, Std.ExtTreeMap.insertMany_cons, ih]

theorem getElem?_of_mem (hdistinct : elements.Pairwise fun a b => key a ≠ key b) {a : α}
    (ha : a ∈ elements) (map : Std.ExtTreeMap κ β) :
    (elements.foldl (fun map a => map.insert (key a) (value a)) map)[key a]? =
      some (value a) := by
  rw [foldl_insert_eq]
  refine Std.ExtTreeMap.getElem?_insertMany_list_of_mem Std.ReflOrd.compare_self ?_
    (List.mem_map.mpr ⟨a, ha, rfl⟩)
  rw [List.pairwise_map]
  exact hdistinct.imp fun hne heq => hne (Std.LawfulEqOrd.compare_eq_iff_eq.mp heq)

theorem getElem?_of_absent {k : κ} (habsent : ∀ a ∈ elements, key a ≠ k)
    (map : Std.ExtTreeMap κ β) :
    (elements.foldl (fun map a => map.insert (key a) (value a)) map)[k]? = map[k]? := by
  rw [foldl_insert_eq]
  refine Std.ExtTreeMap.getElem?_insertMany_list_of_contains_eq_false ?_
  rw [Bool.eq_false_iff]
  intro hcontains
  rw [List.map_map, List.contains_iff_mem, List.mem_map] at hcontains
  obtain ⟨a, ha, heq⟩ := hcontains
  exact habsent a ha heq

omit [BEq κ] [LawfulBEq κ] in
/-- A value in the map was there before or is one of those assigned. -/
theorem mem_of_getElem?_insertMany {entries : List (κ × β)} {map : Std.ExtTreeMap κ β} {k : κ}
    {v : β} (h : (map.insertMany entries)[k]? = some v) : (k, v) ∈ entries ∨ map[k]? = some v := by
  induction entries generalizing map with
  | nil =>
      rw [Std.ExtTreeMap.insertMany_nil] at h
      exact .inr h
  | cons entry entries ih =>
      rw [Std.ExtTreeMap.insertMany_cons] at h
      cases ih h with
      | inl hmem => exact .inl (List.mem_cons_of_mem entry hmem)
      | inr hbefore =>
          rw [Std.ExtTreeMap.getElem?_insert] at hbefore
          by_cases hkey : compare entry.1 k = .eq
          · rw [if_pos hkey] at hbefore
            rw [← Std.LawfulEqOrd.compare_eq_iff_eq.mp hkey, ← Option.some.inj hbefore]
            exact .inl List.mem_cons_self
          · rw [if_neg hkey] at hbefore
            exact .inr hbefore

end Assignment
