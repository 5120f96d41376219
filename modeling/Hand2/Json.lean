import Hand2.Common

/-!
# `Json` — the parsed responses, as the program reads them

The vendored cJSON library turns a response body into a tree; the program only ever walks that tree with
`cJSON_GetObjectItemCaseSensitive`, `cJSON_IsString` and `cJSON_ArrayForEach`. The null pointer such a
walk passes along (a corrupted body, a missing member) is `none`.
-/

namespace Hand2

/-- A parsed JSON value. -/
inductive CJson where
  | null
  | bool (b : Bool)
  | number (valueint : Int)
  | string (valuestring : CString)
  | array (items : List CJson)
  | object (members : List (CString × CJson))

namespace CJson

/-- `cJSON_GetObjectItemCaseSensitive`: the first member called `name`. Only objects have named
    children, so every other value (and the null pointer) gives the null pointer. -/
def getObjectItemCaseSensitive (json : Option CJson) (name : CString) : Option CJson :=
  match json with
  | some (.object members) => (members.find? fun m => compareString name m.1).map (·.2)
  | _                      => none

/-- `cJSON_IsString`. -/
def isString : Option CJson → Bool
  | some (.string _) => true
  | _                => false

/-- The `valuestring` of a value (read only where `isString` holds). -/
def valuestring : Option CJson → CString
  | some (.string s) => s
  | _                => CString.empty

/-- `cJSON_IsNumber`. -/
def isNumber : Option CJson → Bool
  | some (.number _) => true
  | _                => false

/-- The `valueint` of a value (read only where `isNumber` holds). -/
def valueint : Option CJson → Int
  | some (.number n) => n
  | _                => 0

/-- The values `cJSON_ArrayForEach` visits: the children of an array or of an object. -/
def arrayForEach : Option CJson → List CJson
  | some (.array items)    => items
  | some (.object members) => members.map (·.2)
  | _                      => []

/-- `cJSON_GetArraySize`: the number of children, as an `int`. -/
def getArraySize (json : Option CJson) : Int := cInt (arrayForEach json).length

/-- `cJSON_IsString(json) && compare_string(json->valuestring, s)`. -/
def isStringEq (json : Option CJson) (s : CString) : Bool :=
  isString json && compareString (valuestring json) s

/-! ## What stands in a response

A response has the string at a path of names if going down the members of these names ends at it. Of several members of
one name the first counts. -/

/-- The string at the end of a path. -/
inductive StringAt : List CString → CJson → CString → Prop where
  | here (s : CString) : StringAt [] (.string s) s
  | member {name s : CString} {path : List CString} {before after : List (CString × CJson)} {value : CJson}
      (hfirst : ∀ m ∈ before, m.1 ≠ name) (h : StringAt path value s) :
      StringAt (name :: path) (.object (before ++ (name, value) :: after)) s

/-- The same of a response that may be missing or corrupted. -/
def StringIn (path : List CString) (response : Option CJson) (s : CString) : Prop :=
  ∃ json, response = some json ∧ StringAt path json s

/-- Looking a member up finds the first one of its name. -/
theorem getObjectItem_eq_some_iff {response : Option CJson} {name : CString} {value : CJson} :
    getObjectItemCaseSensitive response name = some value ↔
      ∃ before after, response = some (.object (before ++ (name, value) :: after)) ∧ ∀ m ∈ before, m.1 ≠ name := by
  constructor
  · intro h
    unfold getObjectItemCaseSensitive at h
    split at h
    · next members =>
        obtain ⟨⟨name', value'⟩, hfind, hvalue⟩ := Option.map_eq_some_iff.mp h
        obtain rfl : value' = value := hvalue
        obtain ⟨hname, before, after, rfl, hbefore⟩ := List.find?_eq_some_iff_append.mp hfind
        obtain rfl : name = name' := compareString_iff.mp hname
        refine ⟨before, after, rfl, fun m hm heq => ?_⟩
        have hno := hbefore m hm
        rw [compareString_iff.mpr heq.symm] at hno
        exact absurd hno (by simp)
    · cases h
  · rintro ⟨before, after, rfl, hfirst⟩
    have hnone : before.find? (fun m => compareString name m.1) = none :=
      List.find?_eq_none.mpr fun m hm heq => hfirst m hm (compareString_iff.mp heq).symm
    have hself : compareString name name = true := compareString_iff.mpr rfl
    simp [getObjectItemCaseSensitive, List.find?_append, hnone, hself]

theorem stringIn_nil {response : Option CJson} {s : CString} :
    StringIn [] response s ↔ response = some (.string s) := by
  constructor
  · rintro ⟨json, rfl, h⟩
    cases h
    rfl
  · rintro rfl
    exact ⟨_, rfl, .here s⟩

/-- A path is walked one look-up at a time. -/
theorem stringIn_cons {name s : CString} {path : List CString} {response : Option CJson} :
    StringIn (name :: path) response s ↔ StringIn path (getObjectItemCaseSensitive response name) s := by
  constructor
  · rintro ⟨json, rfl, h⟩
    cases h with
    | member hfirst h => exact ⟨_, getObjectItem_eq_some_iff.mpr ⟨_, _, rfl, hfirst⟩, h⟩
  · rintro ⟨value, hvalue, h⟩
    obtain ⟨before, after, rfl, hfirst⟩ := getObjectItem_eq_some_iff.mp hvalue
    exact ⟨_, rfl, .member hfirst h⟩

/-- What the program does with a value it checks for a string: it uses the string if there is one, and nothing else. -/
theorem of_isString {A : Type} (f : CString → A) (other : A) (response : Option CJson) :
    (∀ s, StringIn [] response s → (if isString response then f (valuestring response) else other) = f s) ∧
      ((∀ s, ¬ StringIn [] response s) → (if isString response then f (valuestring response) else other) = other) := by
  constructor
  · intro s hs
    rw [stringIn_nil.mp hs]
    rfl
  · intro hno
    refine if_neg fun hstring => ?_
    unfold isString at hstring
    split at hstring
    · next s => exact hno s (stringIn_nil.mpr rfl)
    · cases hstring

end CJson

end Hand2
