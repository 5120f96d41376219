import Hand2.Json
import Hand2.Sheet
import Hand2.StringArray
import Hand2.Spreadsheet.Name
import Mathlib.Data.List.GetD

/-!
# `Spreadsheet.Retrieve` — `retrieve_sheet`

The response is a matrix of cells whose rows may have any length. The cells are written one behind the other into one
buffer, a terminator behind each, and short rows are filled up with terminators; then the labels and the values are
pointed at by walking over the buffer. Because every row is filled up to the same width, cell `x` of row `y` is string
`y * width + x` of the buffer (`walk_content`). The number of values is an `int`, which limits the matrix.
-/

namespace Hand2

open CJson

/-! ## The request -/

/-- `"https://sheets.googleapis.com/v4/spreadsheets/%s/values/'%s'"`. -/
def sheetUrl (spreadsheet name : CString) : CString :=
  CString.lit "https://sheets.googleapis.com/v4/spreadsheets/" ++ spreadsheet ++ CString.lit "/values/'" ++
    escapedName name ++ CString.lit "'"

/-- The text of `format_sheet_url`, `"%s%ckey=%s"`. -/
def sheetUrlWithKey (url googleToken : CString) : CString :=
  url ++ (if 63 ∈ url.bytes then CString.lit "&" else CString.lit "?") ++ CString.lit "key=" ++ googleToken

/-- The url of the request, once both texts fit their buffers. -/
def sheetRequest (googleToken spreadsheet name : CString) : Except Fault CString := do
  let url ← formatString maxUrlLen (sheetUrl spreadsheet name)
  formatString maxUrlLen (sheetUrlWithKey url googleToken)

/-! ## The response -/

/-- `Sheet`, as it is returned: nothing is said about the lengths of the two arrays. -/
structure RetrievedSheet where
  width : Int
  height : Int
  labels : List CString
  values : List CString
  deriving DecidableEq

/-- What a cell writes into the buffer. -/
def cellBytes (cell : CJson) : List UInt8 :=
  (if isString (some cell) then (valuestring (some cell)).bytes else []) ++ [0]

/-- What a row writes into the buffer. -/
def rowBytes (width : Int) (row : CJson) : List UInt8 :=
  (arrayForEach (some row)).flatMap cellBytes ++
    -- `for(int x = cJSON_GetArraySize(row); x < width; ++x)`
    List.replicate (width - getArraySize (some row)).toNat 0

/-- What `retrieve_sheet` makes of its response. -/
def sheetOfResponse (json : Option CJson) : Except Fault RetrievedSheet :=
  let rows := getObjectItemCaseSensitive json (CString.lit "values")
  let height := cInt (getArraySize rows - 1)
  let width := (arrayForEach rows).foldl (fun width row => max width (getArraySize (some row))) 0
  if width > 0 ∧ height > 0 then do
    -- `allocate_sheet`; the number of values is a product of `int`s
    let count := cInt (width * height)
    allocateMemory (UInt64.ofInt (width * 8))
    allocateMemory (UInt64.ofInt (count * 8))
    let content := (arrayForEach rows).flatMap (rowBytes width)
    let labels := CString.walk width.toNat (content ++ [0])
    let values := CString.walk count.toNat labels.2
    .ok { width, height, labels := labels.1, values := values.1 }
  else .ok { width := 0, height := 0, labels := [], values := [] }

/-- `retrieve_sheet`; `response` gives the parsed response to a request. -/
def retrieveSheet (response : CString → Option CJson) (googleToken spreadsheet name : CString) :
    Except Fault RetrievedSheet := do
  let url ← sheetRequest googleToken spreadsheet name
  sheetOfResponse (response url)

theorem retrieveSheet_eq (response : CString → Option CJson) {googleToken spreadsheet name url : CString}
    (hurl : sheetRequest googleToken spreadsheet name = .ok url) :
    retrieveSheet response googleToken spreadsheet name = sheetOfResponse (response url) := by
  rw [retrieveSheet, hurl]
  rfl

/-! ## The matrix -/

/-- The rows of the response. -/
def matrix (json : Option CJson) : List (List CJson) :=
  (arrayForEach (getObjectItemCaseSensitive json (CString.lit "values"))).map fun row => arrayForEach (some row)

/-- The length of the longest row. -/
def longest (rows : List (List CJson)) : Nat := (rows.map List.length).foldl max 0

/-- The text of the cell in column `x` of row `y`: empty where there is no cell, or none with a string. -/
def cellText (rows : List (List CJson)) (x y : Nat) : CString := valuestring (rows[y]?.bind fun row => row[x]?)

/-- A row, filled up. -/
def filledRow (width : Nat) (row : List CJson) : List CString :=
  row.map (fun cell => valuestring (some cell)) ++ List.replicate (width - row.length) CString.empty

theorem length_filledRow {width : Nat} {row : List CJson} (h : row.length ≤ width) :
    (filledRow width row).length = width := by
  rw [filledRow, List.length_append, List.length_map, List.length_replicate, Nat.add_sub_cancel' h]

theorem getD_filledRow (width : Nat) (row : List CJson) (x : Nat) :
    (filledRow width row).getD x CString.empty = valuestring row[x]? := by
  unfold filledRow
  by_cases hx : x < row.length
  · simp [List.getD_eq_getElem?_getD, List.getElem?_append_left, hx]
  · have hx' : row.length ≤ x := Nat.le_of_not_lt hx
    rw [List.getElem?_eq_none hx', List.getD_eq_getElem?_getD,
      List.getElem?_append_right (by rwa [List.length_map]), List.getElem?_replicate]
    split <;> rfl

theorem cellBytes_eq (cell : CJson) : cellBytes cell = (valuestring (some cell)).bytes ++ [0] := by
  cases cell <;> rfl

/-! ## The width -/

section Width

variable {rows : List (List CJson)}

theorem le_foldl_max (lengths : List Nat) (start : Nat) :
    start ≤ lengths.foldl max start ∧ ∀ n ∈ lengths, n ≤ lengths.foldl max start := by
  induction lengths generalizing start with
  | nil => exact ⟨Nat.le_refl _, by simp⟩
  | cons n lengths ih =>
      obtain ⟨hstart, hall⟩ := ih (max start n)
      refine ⟨Nat.le_trans (Nat.le_max_left start n) hstart, ?_⟩
      exact List.forall_mem_cons.mpr ⟨Nat.le_trans (Nat.le_max_right start n) hstart, hall⟩

/-- No row is longer than the longest. -/
theorem length_le_longest {row : List CJson} (h : row ∈ rows) : row.length ≤ longest rows :=
  (le_foldl_max _ 0).2 _ (List.mem_map_of_mem h)

/-- The loop over the rows finds the longest, as long as all lengths are `int`s. -/
theorem foldl_getArraySize {values : List CJson} (start : Nat)
    (hint : ∀ row ∈ values, ((arrayForEach (some row)).length : Int) ≤ intMax) :
    values.foldl (fun width row => max width (getArraySize (some row))) (start : Int) =
      (((values.map fun row => arrayForEach (some row)).map List.length).foldl max start : Nat) := by
  induction values generalizing start with
  | nil => rfl
  | cons row values ih =>
      obtain ⟨hrow, hrest⟩ := List.forall_mem_cons.mp hint
      have hsize : getArraySize (some row) = ((arrayForEach (some row)).length : Nat) := by
        rw [getArraySize, cInt_eq (by omega) hrow]
      have hmax : max (start : Int) ((arrayForEach (some row)).length : Nat) =
          (max start (arrayForEach (some row)).length : Nat) := by
        omega
      rw [List.foldl_cons, hsize, hmax, List.map_cons, List.map_cons, List.foldl_cons, ih _ hrest]

/-- The width that `retrieve_sheet` computes. -/
theorem width_eq {json : Option CJson} (hint : (longest (matrix json) : Int) ≤ intMax) :
    (arrayForEach (getObjectItemCaseSensitive json (CString.lit "values"))).foldl
      (fun width row => max width (getArraySize (some row))) 0 = (longest (matrix json) : Int) := by
  apply foldl_getArraySize 0
  intro row hrow
  have hle : (arrayForEach (some row)).length ≤ longest (matrix json) :=
    length_le_longest (List.mem_map_of_mem hrow)
  omega

/-- The height that `retrieve_sheet` computes. -/
theorem height_eq {json : Option CJson} (hint : ((matrix json).length : Int) ≤ intMax + 1) :
    cInt (getArraySize (getObjectItemCaseSensitive json (CString.lit "values")) - 1) =
      (matrix json).length - 1 := by
  have hlen : (matrix json).length =
      (arrayForEach (getObjectItemCaseSensitive json (CString.lit "values"))).length := List.length_map _
  unfold getArraySize
  rw [hlen] at hint ⊢
  rw [Int.sub_eq_add_neg, cInt_add_cInt]
  apply cInt_eq
  · omega
  · omega

end Width

/-! ## The buffer -/

/-- A row writes its cells, filled up to the width. -/
theorem rowBytes_eq {width : Nat} {row : CJson} (hint : ((arrayForEach (some row)).length : Int) ≤ intMax) :
    rowBytes width row = CString.joined (filledRow width (arrayForEach (some row))) := by
  have hsize : getArraySize (some row) = ((arrayForEach (some row)).length : Nat) := by
    rw [getArraySize, cInt_eq (by omega) hint]
  have hcells : ∀ cells : List CJson,
      cells.flatMap cellBytes = CString.joined (cells.map fun cell => valuestring (some cell)) := by
    intro cells
    rw [CString.joined, List.flatMap_map]
    exact congrArg (List.flatMap · cells) (funext cellBytes_eq)
  have hempty : ∀ n : Nat, List.replicate n (0 : UInt8) = CString.joined (List.replicate n CString.empty) := by
    intro n
    induction n with
    | zero => rfl
    | succ n ih =>
        rw [List.replicate_succ, List.replicate_succ, ih]
        rfl
  have hrest : ((width : Int) - ((arrayForEach (some row)).length : Nat)).toNat =
      width - (arrayForEach (some row)).length := by
    omega
  rw [rowBytes, filledRow, CString.joined_append, hcells, hempty, hsize, hrest]

/-- The buffer holds the filled rows. -/
theorem content_eq {json : Option CJson} {width : Nat}
    (hint : ∀ row ∈ matrix json, (row.length : Int) ≤ intMax) :
    (arrayForEach (getObjectItemCaseSensitive json (CString.lit "values"))).flatMap (rowBytes width) =
      CString.joined ((matrix json).flatMap (filledRow width)) := by
  unfold matrix at hint ⊢
  generalize arrayForEach (getObjectItemCaseSensitive json (CString.lit "values")) = values at hint ⊢
  induction values with
  | nil => rfl
  | cons row values ih =>
      obtain ⟨hrow, hrest⟩ := List.forall_mem_cons.mp hint
      rw [List.flatMap_cons, List.map_cons, List.flatMap_cons, CString.joined_append, rowBytes_eq hrow, ih hrest]

/-! ## The sheet -/

/-- Rows of one length, one behind the other. -/
theorem length_flatMap_filled {rows : List (List CJson)} {width : Nat} (h : ∀ row ∈ rows, row.length ≤ width) :
    (rows.flatMap (filledRow width)).length = width * rows.length := by
  induction rows with
  | nil => rfl
  | cons row rows ih =>
      obtain ⟨hrow, hrest⟩ := List.forall_mem_cons.mp h
      rw [List.flatMap_cons, List.length_append, length_filledRow hrow, ih hrest, List.length_cons, Nat.mul_succ,
        Nat.add_comm]

/-- Where a cell stands among them. -/
theorem getD_flatMap_filled {rows : List (List CJson)} {width x y : Nat} (h : ∀ row ∈ rows, row.length ≤ width)
    (hx : x < width) :
    (rows.flatMap (filledRow width)).getD (y * width + x) CString.empty = cellText rows x y := by
  induction rows generalizing y with
  | nil => rfl
  | cons row rows ih =>
      obtain ⟨hrow, hrest⟩ := List.forall_mem_cons.mp h
      have hlen := length_filledRow hrow
      rw [List.flatMap_cons]
      cases y with
      | zero =>
          rw [Nat.zero_mul, Nat.zero_add, List.getD_append _ _ _ _ (by omega), getD_filledRow]
          rfl
      | succ y =>
          rw [Nat.succ_mul, List.getD_append_right _ _ _ _ (by rw [hlen]; omega), hlen,
            show y * width + width + x - width = y * width + x by omega, ih hrest]
          rfl

/-- The sheet of a matrix: the header gives the labels, the rows behind it the values. -/
def shownSheet (rows : List (List CJson)) : Sheet where
  width := longest rows
  height := rows.length - 1
  labels := filledRow (longest rows) (rows.headD [])
  values := rows.tail.flatMap (filledRow (longest rows))
  labels_len := by
    apply length_filledRow
    cases rows with
    | nil => exact Nat.le_refl 0
    | cons row rows => exact length_le_longest List.mem_cons_self
  values_len := by
    rw [length_flatMap_filled fun row hrow => length_le_longest (List.mem_of_mem_tail hrow), List.length_tail]

/-- A sheet, as it is returned. -/
def RetrievedSheet.ofSheet (sheet : Sheet) : RetrievedSheet where
  width := sheet.width
  height := sheet.height
  labels := sheet.labels
  values := sheet.values

/-- The filled rows are the labels and then the values. -/
theorem flatMap_filledRow {rows : List (List CJson)} (h : rows ≠ []) :
    rows.flatMap (filledRow (longest rows)) = (shownSheet rows).labels ++ (shownSheet rows).values := by
  cases rows with
  | nil => exact absurd rfl h
  | cons row rows => rfl

theorem labels_shownSheet (rows : List (List CJson)) (x : Nat) :
    (shownSheet rows).labels.getD x CString.empty = cellText rows x 0 := by
  cases rows with
  | nil => exact getD_filledRow (longest []) [] x
  | cons row rows => exact getD_filledRow _ row x

theorem getValue_shownSheet {rows : List (List CJson)} {x y : Nat} (hx : x < longest rows) (hy : y < rows.length - 1) :
    getValue (shownSheet rows) x y = .ok (cellText rows x (y + 1)) := by
  rw [getValue_ok hx hy]
  show Except.ok ((rows.tail.flatMap (filledRow (longest rows))).getD (y * longest rows + x) CString.empty) = _
  rw [getD_flatMap_filled (fun row hrow => length_le_longest (List.mem_of_mem_tail hrow)) hx]
  cases rows with
  | nil => rfl
  | cons row rows => rfl

/-- The dimensions as `retrieve_sheet` computes them, and what it does then. -/
theorem sheetOfResponse_eq {json : Option CJson} (hwidth : (longest (matrix json) : Int) ≤ intMax)
    (hheight : ((matrix json).length : Int) ≤ intMax + 1) :
    sheetOfResponse json =
      if 0 < longest (matrix json) ∧ 2 ≤ (matrix json).length then do
        let count := cInt (longest (matrix json) * ((matrix json).length - 1))
        allocateMemory (UInt64.ofInt (count * 8))
        .ok {
          width := longest (matrix json)
          height := (matrix json).length - 1
          labels := (shownSheet (matrix json)).labels
          values := (CString.walk count.toNat (CString.joined (shownSheet (matrix json)).values ++ [0])).1 }
      else .ok { width := 0, height := 0, labels := [], values := [] } := by
  have hrow : ∀ row ∈ matrix json, (row.length : Int) ≤ intMax := by
    intro row hrow
    have hle := length_le_longest hrow
    omega
  unfold sheetOfResponse
  dsimp only
  rw [width_eq hwidth, height_eq hheight]
  by_cases hsome : 0 < longest (matrix json) ∧ 2 ≤ (matrix json).length
  · have hne : matrix json ≠ [] := by
      intro hnil
      rw [hnil] at hsome
      exact absurd hsome.2 (by decide)
    have hlabels : allocateMemory (UInt64.ofInt ((longest (matrix json) : Int) * 8)) = .ok () := by
      simp only [intMax] at hwidth
      exact allocateMemory_ok (by omega) (by omega)
    rw [if_pos hsome, if_pos (by omega), hlabels, content_eq hrow, flatMap_filledRow hne, CString.joined_append,
      List.append_assoc, Int.toNat_natCast]
    have hwalk := CString.walk_joined (shownSheet (matrix json)).labels
      (CString.joined (shownSheet (matrix json)).values ++ [0])
    rw [(shownSheet (matrix json)).labels_len] at hwalk
    rw [show longest (matrix json) = (shownSheet (matrix json)).width from rfl, hwalk]
    rfl
  · rw [if_neg hsome, if_neg (by omega)]

/-- Too few rows, or none with a cell. -/
theorem sheetOfResponse_empty {json : Option CJson} (h : (matrix json).length < 2 ∨ longest (matrix json) = 0) :
    sheetOfResponse json = .ok { width := 0, height := 0, labels := [], values := [] } := by
  unfold sheetOfResponse
  dsimp only
  rw [if_neg]
  rintro ⟨hwidth, hheight⟩
  rcases h with hfew | hnone
  · rw [height_eq (by simp only [intMax]; omega)] at hheight
    omega
  · rw [width_eq (by rw [hnone]; decide), hnone] at hwidth
    exact absurd hwidth (by decide)

/-- A matrix whose values can be counted. -/
theorem sheetOfResponse_shown {json : Option CJson} (hrows : 2 ≤ (matrix json).length)
    (hwidth : 0 < longest (matrix json))
    (hint : ((longest (matrix json) * ((matrix json).length - 1) : Nat) : Int) ≤ intMax) :
    sheetOfResponse json = .ok (.ofSheet (shownSheet (matrix json))) := by
  have hlong : longest (matrix json) ≤ longest (matrix json) * ((matrix json).length - 1) :=
    Nat.le_mul_of_pos_right _ (by omega)
  have hhigh : (matrix json).length - 1 ≤ longest (matrix json) * ((matrix json).length - 1) :=
    Nat.le_mul_of_pos_left _ hwidth
  have hcount : cInt (longest (matrix json) * ((matrix json).length - 1)) =
      (longest (matrix json) * ((matrix json).length - 1) : Nat) := by
    rw [show ((matrix json).length : Int) - 1 = ((matrix json).length - 1 : Nat) by omega, ← Int.natCast_mul]
    exact cInt_eq (by omega) hint
  have hvalues : allocateMemory (UInt64.ofInt
      (((longest (matrix json) * ((matrix json).length - 1) : Nat) : Int) * 8)) = .ok () := by
    simp only [intMax] at hint
    exact allocateMemory_ok (by omega) (by omega)
  have hwalk := CString.walk_joined (shownSheet (matrix json)).values [0]
  rw [(shownSheet (matrix json)).values_len] at hwalk
  rw [sheetOfResponse_eq (by omega) (by omega), if_pos ⟨hwidth, hrows⟩]
  dsimp only
  rw [hcount, hvalues, Int.toNat_natCast]
  show Except.ok _ = Except.ok _
  rw [show longest (matrix json) * ((matrix json).length - 1) =
    (shownSheet (matrix json)).width * (shownSheet (matrix json)).height from rfl, hwalk]
  have hheight : ((matrix json).length : Int) - 1 = (shownSheet (matrix json)).height := by
    show _ = (((matrix json).length - 1 : Nat) : Int)
    omega
  rw [hheight]
  rfl

/-- **A sheet is shown as it is**, if the number of its values is an `int`: the longest row gives the width, the rows
    behind the header the height, every label and every value is the text of its cell. Any other response gives an empty
    sheet. -/
theorem retrieveSheet_shows (response : CString → Option CJson) {googleToken spreadsheet name url : CString}
    (hurl : sheetRequest googleToken spreadsheet name = .ok url) :
    let rows := matrix (response url)
    (2 ≤ rows.length → 0 < longest rows → (longest rows * (rows.length - 1) : Nat) ≤ intMax →
      ∃ sheet : Sheet, retrieveSheet response googleToken spreadsheet name = .ok (.ofSheet sheet) ∧
        sheet.width = longest rows ∧ sheet.height = rows.length - 1 ∧
        (∀ x < sheet.width, sheet.labels.getD x CString.empty = cellText rows x 0) ∧
        ∀ x < sheet.width, ∀ y < sheet.height, getValue sheet x y = .ok (cellText rows x (y + 1))) ∧
    (rows.length < 2 ∨ longest rows = 0 →
      retrieveSheet response googleToken spreadsheet name =
        .ok { width := 0, height := 0, labels := [], values := [] }) := by
  rw [retrieveSheet_eq response hurl]
  constructor
  · intro hrows hwidth hint
    refine ⟨_, sheetOfResponse_shown hrows hwidth hint, rfl, rfl, fun x _ => labels_shownSheet _ x, ?_⟩
    exact fun x hx y hy => getValue_shownSheet hx hy
  · exact sheetOfResponse_empty

/-! ## Two responses -/

theorem sheetRequest_hw1 : sheetRequest (CString.lit "key") (CString.lit "id") (CString.lit "hw1") =
    .ok (CString.lit "https://sheets.googleapis.com/v4/spreadsheets/id/values/'hw1'?key=key") := by
  decide +kernel

/-- A response with these rows. -/
def responseOf (rows : List (List CJson)) : Option CJson :=
  some (.object [(CString.lit "values", .array (rows.map .array))])

theorem matrix_responseOf (rows : List (List CJson)) : matrix (responseOf rows) = rows := by
  have hvalues : getObjectItemCaseSensitive (responseOf rows) (CString.lit "values") =
      some (.array (rows.map .array)) := rfl
  rw [matrix, hvalues, arrayForEach, List.map_map]
  exact List.map_id rows

/-- A header, a row that is shorter and one with a number and an empty cell. -/
def raggedRows : List (List CJson) :=
  [[.string (CString.lit "student"), .string (CString.lit "score")], [.string (CString.lit "ann")],
    [.string CString.empty, .number 3]]

theorem retrieveSheet_shows_ragged :
    ∃ sheet : Sheet, retrieveSheet (fun _ => responseOf raggedRows) (CString.lit "key") (CString.lit "id")
        (CString.lit "hw1") = .ok (.ofSheet sheet) ∧ sheet.width = 2 ∧ sheet.height = 2 ∧
      sheet.labels.getD 1 CString.empty = CString.lit "score" ∧
      getValue sheet 0 0 = .ok (CString.lit "ann") ∧ getValue sheet 1 0 = .ok CString.empty ∧
      getValue sheet 0 1 = .ok CString.empty ∧ getValue sheet 1 1 = .ok CString.empty := by
  obtain ⟨hshown, -⟩ := retrieveSheet_shows (fun _ => responseOf raggedRows) sheetRequest_hw1
  rw [matrix_responseOf] at hshown
  obtain ⟨sheet, hrun, hwidth, hheight, hlabels, hvalues⟩ := hshown (by decide) (by decide) (by decide)
  rw [show longest raggedRows = 2 from rfl] at hwidth
  rw [show raggedRows.length - 1 = 2 from rfl] at hheight
  rw [hwidth] at hlabels
  rw [hwidth, hheight] at hvalues
  exact ⟨sheet, hrun, hwidth, hheight, hlabels 1 (by decide), hvalues 0 (by decide) 0 (by decide),
    hvalues 1 (by decide) 0 (by decide), hvalues 0 (by decide) 1 (by decide), hvalues 1 (by decide) 1 (by decide)⟩

/-- A header of 65536 cells, and one row more than that without cells. -/
def wideRows : List (List CJson) := List.replicate 65536 .null :: List.replicate 65537 []

theorem longest_wideRows : longest wideRows = 65536 := by
  have hfold : ∀ n a, (List.replicate n 0).foldl max a = a := by
    intro n
    induction n with
    | zero => exact fun a => rfl
    | succ n ih =>
        intro a
        rw [List.replicate_succ, List.foldl_cons, ih, Nat.max_eq_left (Nat.zero_le a)]
  rw [longest, wideRows, List.map_cons, List.map_replicate, List.length_replicate, List.foldl_cons]
  exact hfold 65537 65536

theorem length_wideRows : wideRows.length = 65538 := by
  rw [wideRows, List.length_cons, List.length_replicate]

/-- The product of width and height is `2^32 + 65536`, which is 65536 as an `int`: there are values for one row, and a
    `get_value` of the next reads behind them. -/
theorem retrieveSheet_shows_counterexample :
    2 ≤ wideRows.length ∧ 0 < longest wideRows ∧
      (∃ sheet, retrieveSheet (fun _ => responseOf wideRows) (CString.lit "key") (CString.lit "id")
          (CString.lit "hw1") = .ok sheet ∧
        sheet.width = 65536 ∧ sheet.height = 65537 ∧ sheet.values.length = 65536) ∧
      ¬ ∃ sheet : Sheet, retrieveSheet (fun _ => responseOf wideRows) (CString.lit "key") (CString.lit "id")
        (CString.lit "hw1") = .ok (.ofSheet sheet) := by
  have hwide : matrix (responseOf wideRows) = wideRows := matrix_responseOf wideRows
  have hrun : retrieveSheet (fun _ => responseOf wideRows) (CString.lit "key") (CString.lit "id") (CString.lit "hw1") =
      .ok {
        width := 65536
        height := 65537
        labels := (shownSheet wideRows).labels
        values := (CString.walk 65536 (CString.joined (shownSheet wideRows).values ++ [0])).1 } := by
    refine (retrieveSheet_eq _ sheetRequest_hw1).trans ?_
    rw [sheetOfResponse_eq (by rw [hwide, longest_wideRows]; decide) (by rw [hwide, length_wideRows]; decide), hwide,
      longest_wideRows, length_wideRows, if_pos ⟨by decide, by decide⟩]
    have hcount : cInt (((65536 : Nat) : Int) * (((65538 : Nat) : Int) - 1)) = (65536 : Nat) := by decide
    have hvalues : allocateMemory (UInt64.ofInt (((65536 : Nat) : Int) * 8)) = .ok () :=
      allocateMemory_ok (by decide) (by decide)
    have hheight : ((65538 : Nat) : Int) - 1 = 65537 := by decide
    dsimp only
    rw [hcount, hvalues, hheight, Int.toNat_natCast]
    rfl
  refine ⟨by rw [length_wideRows]; decide, by rw [longest_wideRows]; decide,
    ⟨_, hrun, rfl, rfl, CString.length_walk _ _⟩, ?_⟩
  rintro ⟨sheet, hsheet⟩
  obtain ⟨hwidth, hheight, -, hvalues⟩ := RetrievedSheet.mk.inj (Except.ok.inj (hrun.symm.trans hsheet))
  have hlen := sheet.values_len
  rw [← hvalues, CString.length_walk] at hlen
  have hw : sheet.width = 65536 := by omega
  have hh : sheet.height = 65537 := by omega
  rw [hw, hh] at hlen
  exact absurd hlen (by decide)

end Hand2
