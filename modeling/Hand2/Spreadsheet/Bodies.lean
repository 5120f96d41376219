import Hand2.Json.Bodies
import Hand2.Spreadsheet.Retrieve

/-!
# `Spreadsheet.Bodies` — sheets, from the bodies of the responses

The spreadsheet service answers with a document whose rows may be ragged and whose cells may be of any kind, written
with any escapes. What the program shows of it is said on the document: the text of a cell is the string that stands
there, and nothing where there is none.
-/

namespace Hand2

open CJson JsonText

/-! ## The sheets of a spreadsheet -/

/-- `"https://sheets.googleapis.com/v4/spreadsheets/%s"`. -/
def spreadsheetUrl (spreadsheetId : CString) : CString :=
  CString.lit "https://sheets.googleapis.com/v4/spreadsheets/" ++ spreadsheetId

/-- The title of an item of `sheets`, if it has one. -/
def sheetTitle (sheet : CJson) : Option CString :=
  let title := getObjectItemCaseSensitive (getObjectItemCaseSensitive (some sheet) (CString.lit "properties"))
    (CString.lit "title")
  if isString title then some (valuestring title) else none

/-- `retrieve_spreadsheet`: whether the request succeeded, and the titles; `response` gives both to a request. -/
def retrieveSpreadsheet (response : CString → Bool × Option CJson) (googleToken spreadsheetId : CString) :
    Except Fault (Bool × List CString) := do
  let url ← formatString maxUrlLen (spreadsheetUrl spreadsheetId)
  let url ← formatString maxUrlLen (sheetUrlWithKey url googleToken)
  let sheets := getObjectItemCaseSensitive (response url).2 (CString.lit "sheets")
  .ok ((response url).1, (arrayForEach sheets).filterMap sheetTitle)

/-! ## What a document says -/

/-- The children of a member, if there is one. -/
def docChildren (name : CString) (v : Json) : List Json := (docMember name v).elim [] docItems

/-- The rows of a sheet. -/
def docRows (v : Json) : List (List Json) := (docChildren (CString.lit "values") v).map docItems

/-- The length of the longest row. -/
def docWidth (rows : List (List Json)) : Nat := (rows.map List.length).foldl max 0

/-- The text of the cell in column `x` of row `y`. -/
def docCell (rows : List (List Json)) (x y : Nat) : CString :=
  ((rows[y]?.bind fun row => row[x]?).bind stringOf).getD CString.empty

/-- The titles of the sheets. -/
def docTitles (v : Json) : List CString :=
  (docChildren (CString.lit "sheets") v).filterMap fun sheet =>
    (docMember (CString.lit "properties") sheet).bind (docString (CString.lit "title"))

/-! ## Trees -/

section Trees

variable {strtod : Strtod} {v : Json} {json : CJson}

/-- `cJSON_ArrayForEach` over a member. -/
theorem CJson.TreeOf.children (h : TreeOf strtod v json) (name : CString) :
    List.Forall₂ (TreeOf strtod) (docChildren name v)
      (CJson.arrayForEach (getObjectItemCaseSensitive (some json) name)) := by
  have hmember := h.getObjectItem name
  unfold docChildren
  generalize getObjectItemCaseSensitive (some json) name = found, docMember name v = member at hmember ⊢
  cases hmember with
  | none => exact .nil
  | some htree => exact htree.arrayForEach

/-- The rows of the tree are those of the document, item by item. -/
theorem CJson.TreeOf.rows (h : TreeOf strtod v json) :
    List.Forall₂ (List.Forall₂ (TreeOf strtod)) (docRows v) (matrix (some json)) := by
  unfold docRows Hand2.matrix
  rw [List.forall₂_map_left_iff, List.forall₂_map_right_iff]
  exact (h.children (CString.lit "values")).imp fun _ _ hrow => hrow.arrayForEach

theorem longest_eq {rows : List (List Json)} {trees : List (List CJson)}
    (h : List.Forall₂ (List.Forall₂ (TreeOf strtod)) rows trees) : longest trees = docWidth rows := by
  have hlen : trees.map List.length = rows.map List.length := by
    induction h with
    | nil => rfl
    | cons hrow _ ih => rw [List.map_cons, List.map_cons, hrow.length_eq, ih]
  rw [longest, docWidth, hlen]

/-- Items of lists that are related place by place. -/
theorem rel_getElem? {α β : Type} {R : α → β → Prop} {l : List α} {l' : List β} (h : List.Forall₂ R l l') (n : Nat) :
    Option.Rel R l[n]? l'[n]? := by
  induction h generalizing n with
  | nil => exact .none
  | cons hab _ ih =>
      cases n with
      | zero => exact .some hab
      | succ n => exact ih n

/-- The cells are those of the document. -/
theorem cellText_eq {rows : List (List Json)} {trees : List (List CJson)}
    (h : List.Forall₂ (List.Forall₂ (TreeOf strtod)) rows trees) (x y : Nat) :
    cellText trees x y = docCell rows x y := by
  have hrow := rel_getElem? h y
  unfold cellText docCell
  generalize rows[y]? = row?, trees[y]? = tree? at hrow ⊢
  cases hrow with
  | none => rfl
  | @some row tree hcells =>
      have hcell := rel_getElem? hcells x
      simp only [Option.bind_some]
      generalize row[x]? = cell?, tree[x]? = found? at hcell ⊢
      cases hcell with
      | none => rfl
      | @some cell found htree =>
          have hstring := htree.valuestring
          rw [Option.bind_some, ← hstring]
          cases found <;> rfl

/-- The title of an item is that of the document. -/
theorem CJson.TreeOf.sheetTitle_eq (h : TreeOf strtod v json) :
    sheetTitle json = (docMember (CString.lit "properties") v).bind (docString (CString.lit "title")) := by
  have hmember := h.getObjectItem (CString.lit "properties")
  unfold Hand2.sheetTitle
  generalize getObjectItemCaseSensitive (some json) (CString.lit "properties") = found,
    docMember (CString.lit "properties") v = member at hmember ⊢
  cases hmember with
  | none => rfl
  | some htree => exact htree.nameOf (CString.lit "title")

/-- The titles are those of the document. -/
theorem CJson.TreeOf.titles (h : TreeOf strtod v json) :
    (CJson.arrayForEach (getObjectItemCaseSensitive (some json) (CString.lit "sheets"))).filterMap sheetTitle
      = docTitles v :=
  filterMap_eq_of_rel (fun _ _ hsheet => hsheet.sheetTitle_eq) (h.children (CString.lit "sheets"))

end Trees

theorem retrieveSpreadsheet_eq (response : CString → Bool × Option CJson) {googleToken spreadsheet : CString}
    (hurl : (spreadsheetUrl spreadsheet).length < maxUrlLen)
    (hkey : (sheetUrlWithKey (spreadsheetUrl spreadsheet) googleToken).length < maxUrlLen) :
    retrieveSpreadsheet response googleToken spreadsheet =
      .ok ((response (sheetUrlWithKey (spreadsheetUrl spreadsheet) googleToken)).1,
        (arrayForEach (getObjectItemCaseSensitive
          (response (sheetUrlWithKey (spreadsheetUrl spreadsheet) googleToken)).2 (CString.lit "sheets"))).filterMap
            sheetTitle) := by
  rw [retrieveSpreadsheet, formatString_ok hurl, Loops.ok_bind, formatString_ok hkey]
  rfl

/-- **A spreadsheet, from the bytes of the responses.** However the bodies are written: the sheets are those that the
    first document names, and a sheet shows the text of every cell of the second one, with the first row as its labels,
    and short rows and cells that are no strings as empty, if the number of its values is an `int`. -/
theorem bodies_show_spreadsheet {strtod : Strtod} (hstrtod : ReadsNumbers strtod) (listed values : Body)
    (success : Bool) {googleToken spreadsheet name url : CString}
    (hspreadsheet : (spreadsheetUrl spreadsheet).length < maxUrlLen ∧
      (sheetUrlWithKey (spreadsheetUrl spreadsheet) googleToken).length < maxUrlLen)
    (hsheet : sheetRequest googleToken spreadsheet name = .ok url) :
    retrieveSpreadsheet (fun _ => (success, listed.parsed strtod)) googleToken spreadsheet
      = .ok (success, docTitles listed.value) ∧
    let rows := docRows values.value
    (2 ≤ rows.length → 0 < docWidth rows → (docWidth rows * (rows.length - 1) : Nat) ≤ intMax →
      ∃ sheet : Sheet, retrieveSheet (fun _ => values.parsed strtod) googleToken spreadsheet name
          = .ok (.ofSheet sheet) ∧
        sheet.width = docWidth rows ∧ sheet.height = rows.length - 1 ∧
        (∀ x < sheet.width, sheet.labels.getD x CString.empty = docCell rows x 0) ∧
        ∀ x < sheet.width, ∀ y < sheet.height, getValue sheet x y = .ok (docCell rows x (y + 1))) ∧
    (rows.length < 2 ∨ docWidth rows = 0 →
      retrieveSheet (fun _ => values.parsed strtod) googleToken spreadsheet name =
        .ok { width := 0, height := 0, labels := [], values := [] }) := by
  obtain ⟨listedJson, hlisted, hlistedTree⟩ := listed.treeOf_parsed hstrtod
  obtain ⟨valuesJson, hvalues, hvaluesTree⟩ := values.treeOf_parsed hstrtod
  have hmatrix := hvaluesTree.rows
  have hwidth := longest_eq hmatrix
  have hlen := hmatrix.length_eq
  refine ⟨?_, ?_, ?_⟩
  · rw [retrieveSpreadsheet_eq _ hspreadsheet.1 hspreadsheet.2, hlisted, hlistedTree.titles]
  · intro hrows hpos hint
    rw [retrieveSheet_eq _ hsheet, hvalues]
    rw [hlen, ← hwidth] at hint
    rw [hlen] at hrows
    rw [← hwidth] at hpos
    refine ⟨_, sheetOfResponse_shown hrows hpos hint, hwidth, congrArg (· - 1) hlen.symm, ?_, ?_⟩
    · intro x _
      rw [← cellText_eq hmatrix]
      exact labels_shownSheet _ x
    · intro x hx y hy
      rw [← cellText_eq hmatrix]
      exact getValue_shownSheet hx hy
  · intro hempty
    rw [retrieveSheet_eq _ hsheet, hvalues]
    rw [hlen, ← hwidth] at hempty
    exact sheetOfResponse_empty hempty

/-! ### A spreadsheet with one sheet -/

/-- `{"sheets":[{"properties":{"title":"hw1"}}],"values":[["id"],["7"]]}`. -/
def spreadsheetText : Text where
  chars := ['{', JsonText.quote, 's', 'h', 'e', 'e', 't', 's', JsonText.quote, ':', '[', '{', JsonText.quote, 'p',
    'r', 'o', 'p', 'e', 'r', 't', 'i', 'e', 's', JsonText.quote, ':', '{', JsonText.quote, 't', 'i', 't', 'l', 'e',
    JsonText.quote, ':', JsonText.quote, 'h', 'w', '1', JsonText.quote, '}', '}', ']', ',', JsonText.quote, 'v', 'a',
    'l', 'u', 'e', 's', JsonText.quote, ':', '[', '[', JsonText.quote, 'i', 'd', JsonText.quote, ']', ',', '[',
    JsonText.quote, '7', JsonText.quote, ']', ']', '}']
  noNul := by decide

/-- What it denotes. -/
def spreadsheetValue : Json :=
  .object [(memberName "sheets", .array [.object [(memberName "properties",
      .object [(memberName "title", .string (memberName "hw1"))])]]),
    (memberName "values", .array [.array [.string (memberName "id")], .array [.string (memberName "7")]])]

theorem spreadsheet_document : Document spreadsheetText.chars spreadsheetValue := by
  have hplain : (∀ c ∈ "sheets".toList, Unescaped c) ∧ (∀ c ∈ "properties".toList, Unescaped c) ∧
      (∀ c ∈ "title".toList, Unescaped c) ∧ (∀ c ∈ "hw1".toList, Unescaped c) ∧
      (∀ c ∈ "values".toList, Unescaped c) ∧ (∀ c ∈ "id".toList, Unescaped c) ∧ ∀ c ∈ "7".toList, Unescaped c := by
    refine ⟨?_, ?_, ?_, ?_, ?_, ?_, ?_⟩ <;> exact forall_of_all (by decide)
  obtain ⟨hsheets, hproperties, htitle, hname, hvalues, hid, hseven⟩ := hplain
  have htitleMember : Member (spreadsheetText.chars.drop 26) (memberName "title", .string (memberName "hw1"))
      (spreadsheetText.chars.drop 39) := Member.of_string _ htitle (Chars.of_plain hname)
  have hpropertiesMember : Member (spreadsheetText.chars.drop 12) (memberName "properties", _)
      (spreadsheetText.chars.drop 40) := .of_value _ hproperties (.object (.last htitleMember))
  have hsheetsMember : Member (spreadsheetText.chars.drop 1) (memberName "sheets", _)
      (spreadsheetText.chars.drop 42) :=
    .of_value _ hsheets (.array (.last (.of_value (.object (.last hpropertiesMember)))))
  have hidRow : Element (spreadsheetText.chars.drop 53) (.array [.string (memberName "id")])
      (spreadsheetText.chars.drop 59) :=
    .of_value (.array (.last (.of_value (.string (Chars.of_plain hid)))))
  have hsevenRow : Element (spreadsheetText.chars.drop 60) (.array [.string (memberName "7")])
      (spreadsheetText.chars.drop 65) :=
    .of_value (.array (.last (.of_value (.string (Chars.of_plain hseven)))))
  have hvaluesMember : Member (spreadsheetText.chars.drop 43) (memberName "values", _)
      (spreadsheetText.chars.drop 66) :=
    .of_value _ hvalues (.array (.more hidRow (.last hsevenRow)))
  exact .of_value (.object (.more hsheetsMember (.last hvaluesMember)))

theorem spreadsheet_fits : NumbersFit spreadsheetValue := by
  simp [spreadsheetValue]

/-- The body with both. -/
def spreadsheetBody : Body where
  text := spreadsheetText
  value := spreadsheetValue
  document := spreadsheet_document
  fits := spreadsheet_fits
  shallow := (limits_of_isSome (by decide +kernel)).1
  spelled := (limits_of_isSome (by decide +kernel)).2

theorem bodies_show_spreadsheet_oneSheet :
    retrieveSpreadsheet (fun _ => (true, spreadsheetBody.parsed integerStrtod)) (CString.lit "key") (CString.lit "id")
      = .ok (true, [CString.lit "hw1"]) ∧
    ∃ sheet : Sheet, retrieveSheet (fun _ => spreadsheetBody.parsed integerStrtod) (CString.lit "key")
        (CString.lit "id") (CString.lit "hw1") = .ok (.ofSheet sheet) ∧
      sheet.labels.getD 0 CString.empty = CString.lit "id" ∧ getValue sheet 0 0 = .ok (CString.lit "7") := by
  have hfits : (spreadsheetUrl (CString.lit "id")).length < maxUrlLen ∧
      (sheetUrlWithKey (spreadsheetUrl (CString.lit "id")) (CString.lit "key")).length < maxUrlLen := by
    decide +kernel
  obtain ⟨htitles, hshown, -⟩ :=
    bodies_show_spreadsheet integerStrtod_reads spreadsheetBody spreadsheetBody true hfits sheetRequest_hw1
  have hlisted : docTitles spreadsheetBody.value = [CString.lit "hw1"] := by decide +kernel
  have hcells : docCell (docRows spreadsheetBody.value) 0 0 = CString.lit "id" ∧
      docCell (docRows spreadsheetBody.value) 0 1 = CString.lit "7" := by decide +kernel
  have hshape : docWidth (docRows spreadsheetBody.value) = 1 ∧ (docRows spreadsheetBody.value).length = 2 := by
    decide +kernel
  rw [hshape.1, hshape.2] at hshown
  obtain ⟨sheet, hrun, hwidth, hheight, hlabels, hvalues⟩ := hshown (by decide) (by decide) (by decide)
  refine ⟨by rw [htitles, hlisted], sheet, hrun, ?_, ?_⟩
  · rw [hlabels 0 (by omega), hcells.1]
  · rw [hvalues 0 (by omega) 0 (by omega), hcells.2]

end Hand2
