import Hand2.Fetch.Pages
import Hand2.Json.Document

/-!
# `Json.Bodies` — listings, from the bodies of the responses

The program reads a parsed response with `cJSON_ArrayForEach` and `cJSON_GetObjectItemCaseSensitive`. Both have their
meaning on the document itself (`docItems`, `docMember`), whatever its whitespace, its escapes and its other members;
the tree of a document answers as the document does (`TreeOf`).
-/

namespace Hand2

namespace CJson

open Utf8 JsonText

/-- The first member with a name. -/
def docMember (name : CString) : Json → Option Json
  | .object members => (members.find? fun m => decide (unitsString m.1 = some name)).map (·.2)
  | _               => none

/-- The items of an array, or the values of an object. -/
def docItems : Json → List Json
  | .array items    => items
  | .object members => members.map (·.2)
  | _               => []

/-- The string that a value is. -/
def stringOf : Json → Option CString
  | .string units => unitsString units
  | _             => none

/-- The string under a name. -/
def docString (name : CString) (item : Json) : Option CString := (docMember name item).bind stringOf

/-! ## Trees -/

section Trees

variable {strtod : Strtod}

/-- The tree is that of the value. -/
def TreeOf (strtod : Strtod) (v : Json) (json : CJson) : Prop := ∃ nesting, ofJson strtod nesting v = some json

/-- What each gives, when all give something. -/
theorem forall₂_of_mapM {α β : Type} {f : α → Option β} {l : List α} {bs : List β} (h : l.mapM f = some bs) :
    List.Forall₂ (fun a b => f a = some b) l bs := by
  induction l generalizing bs with
  | nil =>
      obtain rfl : [] = bs := by simpa using h
      exact .nil
  | cons a l ih =>
      rw [List.mapM_cons] at h
      obtain ⟨b, hb, h⟩ := Option.bind_eq_some_iff.mp h
      obtain ⟨rest, hrest, h⟩ := Option.bind_eq_some_iff.mp h
      obtain rfl : b :: rest = bs := Option.some.inj h
      exact .cons hb (ih hrest)

/-- The tree of an array. -/
theorem TreeOf.array {items : List Json} {json : CJson} (h : TreeOf strtod (.array items) json) :
    ∃ trees, json = .array trees ∧ List.Forall₂ (TreeOf strtod) items trees := by
  obtain ⟨nesting, h⟩ := h
  cases nesting with
  | zero => cases h
  | succ nesting =>
      obtain ⟨trees, htrees, rfl⟩ := Option.map_eq_some_iff.mp h
      exact ⟨trees, rfl, (forall₂_of_mapM htrees).imp fun _ _ hitem => ⟨nesting, hitem⟩⟩

/-- A member and its tree. -/
def MemberTreeOf (strtod : Strtod) (m : List Nat × Json) (member : CString × CJson) : Prop :=
  unitsString m.1 = some member.1 ∧ TreeOf strtod m.2 member.2

/-- The tree of an object. -/
theorem TreeOf.object {members : List (List Nat × Json)} {json : CJson} (h : TreeOf strtod (.object members) json) :
    ∃ trees, json = .object trees ∧ List.Forall₂ (MemberTreeOf strtod) members trees := by
  obtain ⟨nesting, h⟩ := h
  cases nesting with
  | zero => cases h
  | succ nesting =>
      obtain ⟨trees, htrees, rfl⟩ := Option.map_eq_some_iff.mp h
      refine ⟨trees, rfl, (forall₂_of_mapM htrees).imp fun m member hm => ?_⟩
      obtain ⟨name, hname, hm⟩ := Option.bind_eq_some_iff.mp hm
      obtain ⟨item, hitem, rfl⟩ := Option.map_eq_some_iff.mp hm
      exact ⟨hname, nesting, hitem⟩

/-- The tree of a string. -/
theorem TreeOf.string {units : List Nat} {json : CJson} (h : TreeOf strtod (.string units) json) :
    ∃ s, unitsString units = some s ∧ json = .string s := by
  obtain ⟨nesting, h⟩ := h
  have hstring : ofJson strtod nesting (.string units) = (unitsString units).map .string := by
    cases nesting <;> rfl
  rw [hstring] at h
  obtain ⟨s, hs, rfl⟩ := Option.map_eq_some_iff.mp h
  exact ⟨s, hs, rfl⟩

/-- The tree of a number. -/
theorem TreeOf.number {digits : List Char} {json : CJson} (h : TreeOf strtod (.number digits) json) :
    json = .number (strtod.read (utf8 digits)).2.valueint := by
  obtain ⟨nesting, h⟩ := h
  cases nesting <;> exact (Option.some.inj h).symm

/-- The tree of anything but an array or an object has no children. -/
theorem TreeOf.leaf {v : Json} {json : CJson} (h : TreeOf strtod v json) (harray : ∀ items, v ≠ .array items)
    (hobject : ∀ members, v ≠ .object members) :
    arrayForEach (some json) = [] ∧ ∀ name, getObjectItemCaseSensitive (some json) name = none := by
  cases v with
  | array items    => exact absurd rfl (harray items)
  | object members => exact absurd rfl (hobject members)
  | string units   =>
      obtain ⟨s, -, rfl⟩ := h.string
      exact ⟨rfl, fun _ => rfl⟩
  | _ =>
      obtain ⟨nesting, h⟩ := h
      cases nesting <;> cases h <;> exact ⟨rfl, fun _ => rfl⟩

/-- `cJSON_IsString` and `valuestring`. -/
theorem TreeOf.valuestring {v : Json} {json : CJson} (h : TreeOf strtod v json) :
    (if isString (some json) then some (valuestring (some json)) else none) = stringOf v := by
  cases v with
  | string units =>
      obtain ⟨s, hs, rfl⟩ := h.string
      exact hs.symm
  | array items =>
      obtain ⟨trees, rfl, -⟩ := h.array
      rfl
  | object members =>
      obtain ⟨trees, rfl, -⟩ := h.object
      rfl
  | _ =>
      obtain ⟨nesting, h⟩ := h
      cases nesting <;> cases h <;> rfl

/-- `cJSON_ArrayForEach` visits the items. -/
theorem TreeOf.arrayForEach {v : Json} {json : CJson} (h : TreeOf strtod v json) :
    List.Forall₂ (TreeOf strtod) (docItems v) (arrayForEach (some json)) := by
  cases v with
  | array items =>
      obtain ⟨trees, rfl, htrees⟩ := h.array
      exact htrees
  | object members =>
      obtain ⟨trees, rfl, htrees⟩ := h.object
      exact List.forall₂_map_left_iff.mpr (List.forall₂_map_right_iff.mpr (htrees.imp fun _ _ hm => hm.2))
  | _ =>
      rw [(h.leaf nofun nofun).1]
      exact .nil

/-- `cJSON_GetObjectItemCaseSensitive` finds the member. -/
theorem TreeOf.getObjectItem {v : Json} {json : CJson} (h : TreeOf strtod v json) (name : CString) :
    Option.Rel (TreeOf strtod) (docMember name v) (getObjectItemCaseSensitive (some json) name) := by
  cases v with
  | object members =>
      obtain ⟨trees, rfl, htrees⟩ := h.object
      show Option.Rel _ ((members.find? fun m => decide (unitsString m.1 = some name)).map (·.2))
        ((trees.find? fun m => compareString name m.1).map (·.2))
      clear h
      induction htrees with
      | nil => exact .none
      | @cons m member members trees hm _ ih =>
          obtain ⟨hname, htree⟩ := hm
          by_cases hfound : member.1 = name
          · rw [List.find?_cons_of_pos (by simp [hname, hfound]), List.find?_cons_of_pos (by simp [hfound])]
            exact .some htree
          · rw [List.find?_cons_of_neg (by simp [hname, hfound]), List.find?_cons_of_neg (by simp [Ne.symm hfound])]
            exact ih
  | array items =>
      obtain ⟨trees, rfl, -⟩ := h.array
      exact .none
  | _ =>
      rw [(h.leaf nofun nofun).2]
      exact .none

/-- The string under a name, as the program reads it. -/
theorem TreeOf.nameOf {item : Json} {json : CJson} (h : TreeOf strtod item json) (name : CString) :
    nameOf name json = docString name item := by
  have hmember := h.getObjectItem name
  unfold Hand2.nameOf docString
  generalize getObjectItemCaseSensitive (some json) name = found, docMember name item = v at hmember ⊢
  cases hmember with
  | none => rfl
  | some htree => exact htree.valuestring

end Trees

/-! ## Bodies -/

/-- The body of a response: a document within the limits of the parser. -/
structure Body where
  text : Text
  value : Json
  document : Document text.chars value
  fits : NumbersFit value
  shallow : ¬ Nested (nestingLimit + 1) value
  spelled : Spelled value

/-- What `cJSON_Parse` makes of a body. -/
def Body.parsed (strtod : Strtod) (body : Body) : Option CJson :=
  match parse strtod body.text.cString with
  | .ok json => json
  | .error _ => none

/-- The responses to the requests for the pages of a listing, the first of which is page one. -/
def responses (strtod : Strtod) (bodies : Nat → Body) : ListingPages := fun page => (bodies (page - 1)).parsed strtod

/-- What is picked out of two lists that are related place by place. -/
theorem filterMap_eq_of_rel {α β γ : Type} {R : α → β → Prop} {f : α → Option γ} {g : β → Option γ}
    (hfg : ∀ a b, R a b → g b = f a) {l : List α} {l' : List β} (h : List.Forall₂ R l l') :
    l'.filterMap g = l.filterMap f := by
  induction h with
  | nil => rfl
  | cons hab _ ih => rw [List.filterMap_cons, List.filterMap_cons, hfg _ _ hab, ih]

/-- The items of a page, as its body has them. -/
def itemsIn (bodies : Nat → Body) (n : Nat) : List Json := docItems (bodies n).value

section Bodies

variable {strtod : Strtod} (hstrtod : ReadsNumbers strtod)
include hstrtod

/-- A body has its tree. -/
theorem Body.treeOf_parsed (body : Body) : ∃ json, body.parsed strtod = some json ∧ TreeOf strtod body.value json := by
  have htree := parse_tree hstrtod body.text body.document body.fits
  have hread := (ofJson_ne_none_iff strtod nestingLimit body.value).mpr ⟨body.shallow, body.spelled⟩
  obtain ⟨json, hjson⟩ := Option.ne_none_iff_exists'.mp hread
  refine ⟨json, ?_, nestingLimit, hjson⟩
  rw [Body.parsed, htree]
  exact hjson

/-- The items of a page are those of its body. -/
theorem itemsOnPage_treeOf (bodies : Nat → Body) (n : Nat) :
    List.Forall₂ (TreeOf strtod) (itemsIn bodies n) (itemsOnPage (responses strtod bodies) n) := by
  obtain ⟨json, hparsed, htree⟩ := (bodies n).treeOf_parsed hstrtod
  have hpage : itemsOnPage (responses strtod bodies) n = arrayForEach ((bodies n).parsed strtod) := rfl
  rw [hpage, hparsed]
  exact htree.arrayForEach

theorem itemsOnPage_eq_nil (bodies : Nat → Body) (n : Nat) :
    itemsOnPage (responses strtod bodies) n = [] ↔ itemsIn bodies n = [] := by
  rw [← List.length_eq_zero_iff, ← List.length_eq_zero_iff, (itemsOnPage_treeOf hstrtod bodies n).length_eq]

/-- The first pages of a listing. -/
theorem concat_treeOf (bodies : Nat → Body) (p n : Nat) :
    List.Forall₂ (TreeOf strtod) (Paged.concat (itemsIn bodies) p n)
      (Paged.concat (itemsOnPage (responses strtod bodies)) p n) := by
  induction n generalizing p with
  | zero => exact .nil
  | succ n ih =>
      rw [Paged.concat_succ, Paged.concat_succ]
      exact List.rel_append (itemsOnPage_treeOf hstrtod bodies p) (ih (p + 1))

theorem find_itemsOnPage (bodies : Nat → Body) (hend : ∃ n, itemsIn bodies n = [])
    (hend' : ∃ n, itemsOnPage (responses strtod bodies) n = []) : Nat.find hend' = Nat.find hend := by
  simp only [itemsOnPage_eq_nil hstrtod]

/-- The names of a whole listing. -/
theorem names_treeOf (bodies : Nat → Body) (key : CString) (hend : ∃ n, itemsIn bodies n = [])
    (hend' : ∃ n, itemsOnPage (responses strtod bodies) n = []) :
    (Paged.upToEmpty (itemsOnPage (responses strtod bodies)) hend').filterMap (nameOf key)
      = (Paged.upToEmpty (itemsIn bodies) hend).filterMap (docString key) := by
  unfold Paged.upToEmpty
  rw [find_itemsOnPage hstrtod bodies hend hend']
  exact filterMap_eq_of_rel (fun _ _ hitem => hitem.nameOf key) (concat_treeOf hstrtod bodies 0 (Nat.find hend))

/-- The loops over the pages, from the bodies. -/
theorem retrieveNames_bodies {workerCount : Nat} (hw : 0 < workerCount) (bodies : Nat → Body) (githubToken : CString)
    (pageUrl : Nat → CString) (key : CString) (keep : CString → Bool) (hend : ∃ n, itemsIn bodies n = []) {fuel : Nat}
    (hfuel : Nat.find hend < fuel) (hfits : RequestsFit githubToken pageUrl workerCount (Nat.find hend)) :
    retrieveNames fuel workerCount (responses strtod bodies) githubToken pageUrl key keep
      = .ok (((Paged.upToEmpty (itemsIn bodies) hend).filterMap (docString key)).filter keep) := by
  have hend' : ∃ n, itemsOnPage (responses strtod bodies) n = [] :=
    hend.imp fun n hn => (itemsOnPage_eq_nil hstrtod bodies n).mpr hn
  have hfind := find_itemsOnPage hstrtod bodies hend hend'
  rw [← hfind] at hfuel hfits
  rw [(retrieveNames_eq hw githubToken pageUrl key keep hend' hfuel).1 hfits,
    names_treeOf hstrtod bodies key hend hend']

end Bodies

/-- **Listings, from the bytes of the responses.** However the bodies are written, whatever other members their items
    have and however the items are cut into pages: the members and the invitations of a team, and the repositories with
    a prefix, are the strings that the documents in front of the first one without items have under the name asked
    for, in order and each as often as it is there. -/
theorem bodies_list_names {strtod : Strtod} (hstrtod : ReadsNumbers strtod) (bodies : Nat → Body)
    (githubToken organization team namePrefix : CString) (hend : ∃ n, itemsIn bodies n = []) :
    ∃ rounds, ∀ fuel, rounds ≤ fuel →
      (RequestsFit githubToken (membersPageUrl organization team) 4 (Nat.find hend) →
        retrieveTeamMembers fuel (responses strtod bodies) githubToken organization team
          = .ok ((Paged.upToEmpty (itemsIn bodies) hend).filterMap (docString (CString.lit "login")))) ∧
      (RequestsFit githubToken (invitationsPageUrl organization team) 4 (Nat.find hend) →
        retrieveExistingInvitations fuel (responses strtod bodies) githubToken organization team
          = .ok ((Paged.upToEmpty (itemsIn bodies) hend).filterMap (docString (CString.lit "login")))) ∧
      (RequestsFit githubToken (reposPageUrl organization) 8 (Nat.find hend) →
        retrieveReposByPrefix fuel (responses strtod bodies) githubToken organization namePrefix
          = .ok (((Paged.upToEmpty (itemsIn bodies) hend).filterMap (docString (CString.lit "name"))).filter
              fun name => namePrefix.bytes.isPrefixOf name.bytes)) := by
  refine ⟨Nat.find hend + 1, fun fuel hfuel => ⟨fun hfits => ?_, fun hfits => ?_, fun hfits => ?_⟩⟩
  · have h := retrieveNames_bodies hstrtod (by decide : 0 < 4) bodies githubToken (membersPageUrl organization team)
      (CString.lit "login") (fun _ => true) hend hfuel hfits
    rwa [List.filter_true] at h
  · have h := retrieveNames_bodies hstrtod (by decide : 0 < 4) bodies githubToken
      (invitationsPageUrl organization team) (CString.lit "login") (fun _ => true) hend hfuel hfits
    rwa [List.filter_true] at h
  · have hkeep : (fun name : CString => compareSubstring name.bytes namePrefix.bytes namePrefix.length)
        = fun name => namePrefix.bytes.isPrefixOf name.bytes :=
      funext fun name => compareSubstring_eq_isPrefixOf namePrefix.noNul
    rw [← hkeep]
    exact retrieveNames_bodies hstrtod (by decide) bodies githubToken (reposPageUrl organization) (CString.lit "name") _
      hend hfuel hfits

/-- `[{"number":7,"title":"hw1","login":"t\u0061"} ]`. -/
def oneItem : Text where
  chars := ['[', '{', JsonText.quote, 'n', 'u', 'm', 'b', 'e', 'r', JsonText.quote, ':', '7', ',', JsonText.quote, 't',
    'i', 't', 'l', 'e', JsonText.quote, ':', JsonText.quote, 'h', 'w', '1', JsonText.quote, ',', JsonText.quote, 'l',
    'o', 'g', 'i', 'n', JsonText.quote, ':', JsonText.quote, 't', JsonText.backslash, 'u', '0', '0', '6', '1',
    JsonText.quote, '}', ' ', ']']
  noNul := by decide

/-- What it denotes. -/
def oneItemValue : Json :=
  .array [.object [(memberName "number", .number ['7']), (memberName "title", .string (memberName "hw1")),
    (memberName "login", .string (memberName "ta"))]]

theorem oneItem_document : Document oneItem.chars oneItemValue := by
  have hspace : Ws [' '] := by simp [Ws]
  have hdigits : JsonText.hexDigit '0' = some 0 ∧ JsonText.hexDigit '6' = some 6 ∧ JsonText.hexDigit '1' = some 1 := by
    decide
  obtain ⟨h0, h6, h1⟩ := hdigits
  have hseven : Number (['7'] ++ [] ++ []) := .positive (.digit rfl) .none .none
  have hplain : (∀ c ∈ "number".toList, Unescaped c) ∧ (∀ c ∈ "title".toList, Unescaped c) ∧
      (∀ c ∈ "hw1".toList, Unescaped c) ∧ (∀ c ∈ "login".toList, Unescaped c) := by
    refine ⟨?_, ?_, ?_, ?_⟩ <;> exact forall_of_all (by decide)
  obtain ⟨hnumberName, htitleName, htitle, hloginName⟩ := hplain
  have hta : Chars (oneItem.chars.drop 36) (memberName "ta") (oneItem.chars.drop 44) :=
    .plain (c := 't') (by decide) (.hex h0 h0 h6 h1 .close)
  have hnumberMember : Member (oneItem.chars.drop 2) (memberName "number", .number ['7']) (oneItem.chars.drop 12) :=
    .of_value _ hnumberName (.number hseven)
  have htitleMember : Member (oneItem.chars.drop 13) (memberName "title", .string (memberName "hw1"))
      (oneItem.chars.drop 26) := Member.of_string _ htitleName (Chars.of_plain htitle)
  have hloginMember : Member (oneItem.chars.drop 27) (memberName "login", .string (memberName "ta"))
      (oneItem.chars.drop 44) := Member.of_string _ hloginName hta
  have hitem : Element (oneItem.chars.drop 1) _ [']'] :=
    .mk [] [' '] Ws.nil (.object (.more hnumberMember (.more htitleMember (.last hloginMember)))) hspace
  exact .of_value (.array (.last hitem))

theorem oneItem_fits : NumbersFit oneItemValue := by
  simp [oneItemValue]

/-- A value that has a tree is within the limits. -/
theorem limits_of_isSome {v : Json} (h : (ofJson integerStrtod nestingLimit v).isSome = true) :
    ¬ Nested (nestingLimit + 1) v ∧ Spelled v :=
  (ofJson_ne_none_iff integerStrtod nestingLimit v).mp (Option.isSome_iff_ne_none.mp h)

/-- The first page of a listing. -/
def oneItemBody : Body where
  text := oneItem
  value := oneItemValue
  document := oneItem_document
  fits := oneItem_fits
  shallow := (limits_of_isSome (by decide +kernel)).1
  spelled := (limits_of_isSome (by decide +kernel)).2

/-- The page behind the last one: `[]`. -/
def noItemsBody : Body where
  text := ⟨['[', ']'], by decide⟩
  value := .array []
  document := .of_value (.emptyArray Ws.nil)
  fits := by simp
  shallow := (limits_of_isSome (by decide +kernel)).1
  spelled := (limits_of_isSome (by decide +kernel)).2

/-- A listing of one page. -/
def onePage (n : Nat) : Body := if n = 0 then oneItemBody else noItemsBody

theorem onePage_end : ∃ n, itemsIn onePage n = [] := ⟨1, rfl⟩

theorem find_onePage : Nat.find onePage_end = 1 :=
  (Nat.find_eq_iff onePage_end).mpr ⟨rfl, fun n hn h => by
    obtain rfl : n = 0 := by omega
    cases h⟩

theorem bodies_list_names_onePage :
    ∃ rounds, ∀ fuel, rounds ≤ fuel →
      retrieveTeamMembers fuel (responses integerStrtod onePage) (CString.lit "ghp_x") (CString.lit "course")
        (CString.lit "tas") = .ok [CString.lit "ta"] := by
  obtain ⟨rounds, hrounds⟩ := bodies_list_names integerStrtod_reads onePage (CString.lit "ghp_x") (CString.lit "course")
    (CString.lit "tas") (CString.lit "hw1") onePage_end
  refine ⟨rounds, fun fuel hfuel => ?_⟩
  obtain ⟨hmembers, -, -⟩ := hrounds fuel hfuel
  rw [Paged.upToEmpty, find_onePage] at hmembers
  have hnames :
      (Paged.concat (itemsIn onePage) 0 1).filterMap (docString (CString.lit "login")) = [CString.lit "ta"] := by
    decide +kernel
  rw [← hnames]
  exact hmembers (by decide +kernel)

end CJson

end Hand2
