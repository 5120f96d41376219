import Hand2.Common

/-!
# `Sheet` — the spreadsheet and its lookups (`hand_buffer.c`)

A `Sheet` is what `retrieve_sheet` allocates: the labels of its columns and its cells, row after row. Cells
and labels are NUL-terminated strings of one buffer. The structure carries the two array lengths, so every
column `find_label` finds has a cell in every row.
-/

namespace Hand2

/-- `Sheet`. -/
structure Sheet where
  width : Nat
  height : Nat
  labels : List CString
  values : List CString
  labels_len : labels.length = width
  values_len : values.length = width * height

/-- `find_label`: the first column with that label, if there is one (`-1` if not). -/
def findLabel (sheet : Sheet) (label : CString) : Option Nat :=
  sheet.labels.findIdx? (fun l => compareString l label)

/-- `get_value`. -/
def getValue (sheet : Sheet) (x y : Nat) : Except Fault CString :=
  if x < sheet.width ∧ y < sheet.height then .ok (sheet.values.getD (y * sheet.width + x) CString.empty)
  else .error .assertion

/-- `find_index_case_insensitive`: the first string of that name, if there is one (`-1` if not). -/
def findIndexCaseInsensitive (array : List CString) (keyword : CString) : Option Nat :=
  array.findIdx? (fun s => compareCaseInsensitive s keyword)

/-- The cell of row `y` in column `x`. -/
def Sheet.cell (sheet : Sheet) (x y : Nat) : CString := sheet.values.getD (y * sheet.width + x) CString.empty

theorem getValue_ok {sheet : Sheet} {x y : Nat} (hx : x < sheet.width) (hy : y < sheet.height) :
    getValue sheet x y = .ok (sheet.cell x y) := by
  unfold getValue
  rw [if_pos ⟨hx, hy⟩]
  rfl

/-- A label that is found stands at its column. -/
theorem findLabel_lt {sheet : Sheet} {label : CString} {x : Nat} (h : findLabel sheet label = some x) :
    x < sheet.width := by
  unfold findLabel at h
  obtain ⟨hx, -⟩ := List.findIdx?_eq_some_iff_getElem.mp h
  rw [← sheet.labels_len]
  exact hx

/-- The sheet has a column with that label. -/
def Sheet.HasLabel (sheet : Sheet) (label : CString) : Prop := label ∈ sheet.labels

instance (sheet : Sheet) (label : CString) : Decidable (sheet.HasLabel label) :=
  inferInstanceAs (Decidable (label ∈ sheet.labels))

theorem findLabel_eq_none_iff {sheet : Sheet} {label : CString} :
    findLabel sheet label = none ↔ ¬ sheet.HasLabel label := by
  unfold findLabel Sheet.HasLabel
  rw [List.findIdx?_eq_none_iff]
  constructor
  · intro h hmem
    have := h label hmem
    rw [compareString_iff.mpr rfl] at this
    exact absurd this (by simp)
  · intro h l hl
    by_contra hcon
    have heq : l = label := compareString_iff.mp (by simpa using hcon)
    exact h (heq ▸ hl)

/-- `find_label` finds the first column that carries the label. -/
theorem findLabel_eq_idxOf? (sheet : Sheet) (label : CString) :
    findLabel sheet label = sheet.labels.idxOf? label := by
  unfold findLabel List.idxOf?
  congr 1
  funext l
  rw [Bool.eq_iff_iff, compareString_iff, beq_iff_eq]

/-- The cell of row `y` under the first column that carries the label. -/
def Sheet.lookup (sheet : Sheet) (y : Nat) (label : CString) : Option CString :=
  (sheet.labels.idxOf? label).map (fun x => sheet.cell x y)

theorem Sheet.lookup_isSome_iff {sheet : Sheet} {y : Nat} {label : CString} :
    (sheet.lookup y label).isSome = true ↔ sheet.HasLabel label := by
  rw [Sheet.lookup, ← findLabel_eq_idxOf?, Option.isSome_map, ← not_iff_not, ← findLabel_eq_none_iff]
  simp

end Hand2
