import Hand2.Fetch.Get
import Hand2.Json
import Hand2.Library.Paged

/-!
# `Fetch.Pages` — listings fetched several pages at a time

`retrieve_team_members`, `retrieve_existing_invitations` and `retrieve_repos_by_prefix` are one loop with different
urls, group sizes and names. Pages are asked for in groups but read one at a time, and a page without items ends both
loops. What they return is what the pages in front of the first empty one name (`grouped_pagination`).
-/

namespace Hand2

open CJson

/-- The responses to a listing, by page number. -/
abbrev ListingPages := Nat → Option CJson

/-- `"https://api.github.com/orgs/%s/teams/%s/members?page=%d&per_page=100"`. -/
def membersPageUrl (organization team : CString) (page : Nat) : CString :=
  CString.lit "https://api.github.com/orgs/" ++ organization ++ CString.lit "/teams/" ++ team
    ++ CString.lit "/members?page=" ++ CString.ofBytes (decimal page) ++ CString.lit "&per_page=100"

/-- `"https://api.github.com/orgs/%s/teams/%s/invitations?page=%d&per_page=100"`. -/
def invitationsPageUrl (organization team : CString) (page : Nat) : CString :=
  CString.lit "https://api.github.com/orgs/" ++ organization ++ CString.lit "/teams/" ++ team
    ++ CString.lit "/invitations?page=" ++ CString.ofBytes (decimal page) ++ CString.lit "&per_page=100"

/-- `"https://api.github.com/orgs/%s/repos?page=%d&per_page=100"`. -/
def reposPageUrl (organization : CString) (page : Nat) : CString :=
  CString.lit "https://api.github.com/orgs/" ++ organization ++ CString.lit "/repos?page="
    ++ CString.ofBytes (decimal page) ++ CString.lit "&per_page=100"

/-- The `cJSON_ArrayForEach` loop: `result` and `count_in_page`. -/
def namesLoop (key : CString) (keep : CString → Bool) : List CJson → List CString → Nat → List CString × Nat
  | [],            result, countInPage => (result, countInPage)
  | item :: items, result, countInPage =>
      let name := getObjectItemCaseSensitive (some item) key
      if isString name && keep (valuestring name) then
        namesLoop key keep items (result ++ [valuestring name]) (countInPage + 1)
      else namesLoop key keep items result (countInPage + 1)

/-- The loops over groups of `workerCount` pages, for at most `fuel` groups. -/
def retrieveNames (fuel workerCount : Nat) (pages : ListingPages) (githubToken : CString) (pageUrl : Nat → CString)
    (key : CString) (keep : CString → Bool) : Except Fault (List CString) :=
  Paged.readGroups .outOfFuel
    (fun page => (assignGithubGet githubToken (pageUrl page)).map fun _ => ())
    (fun items result => namesLoop key keep items result 0) (fun page => arrayForEach (pages page))
    workerCount fuel 1 []

/-- `retrieve_team_members`. -/
def retrieveTeamMembers (fuel : Nat) (pages : ListingPages) (githubToken organization team : CString) :
    Except Fault (List CString) :=
  retrieveNames fuel 4 pages githubToken (membersPageUrl organization team) (CString.lit "login") fun _ => true

/-- `retrieve_existing_invitations`. -/
def retrieveExistingInvitations (fuel : Nat) (pages : ListingPages) (githubToken organization team : CString) :
    Except Fault (List CString) :=
  retrieveNames fuel 4 pages githubToken (invitationsPageUrl organization team) (CString.lit "login") fun _ => true

/-- `retrieve_repos_by_prefix`. -/
def retrieveReposByPrefix (fuel : Nat) (pages : ListingPages) (githubToken organization namePrefix : CString) :
    Except Fault (List CString) :=
  retrieveNames fuel 8 pages githubToken (reposPageUrl organization) (CString.lit "name")
    fun name => compareSubstring name.bytes namePrefix.bytes namePrefix.length

/-! ## What a listing names -/

/-- The name of an item, if it is a string. -/
def nameOf (key : CString) (item : CJson) : Option CString :=
  let name := getObjectItemCaseSensitive (some item) key
  if isString name then some (valuestring name) else none

/-- The names of a page that are kept, and the number of its items. -/
theorem namesLoop_eq (key : CString) (keep : CString → Bool) (items : List CJson) (result : List CString)
    (countInPage : Nat) :
    namesLoop key keep items result countInPage
      = (result ++ (items.filterMap (nameOf key)).filter keep, countInPage + items.length) := by
  induction items generalizing result countInPage with
  | nil => simp [namesLoop]
  | cons item items ih =>
      rw [namesLoop, List.filterMap_cons, List.length_cons]
      by_cases hstring : isString (getObjectItemCaseSensitive (some item) key) = true
      · have hname : nameOf key item = some (valuestring (getObjectItemCaseSensitive (some item) key)) := by
          rw [nameOf, if_pos hstring]
        rw [hname, hstring, Bool.true_and]
        by_cases hkeep : keep (valuestring (getObjectItemCaseSensitive (some item) key)) = true
        · rw [if_pos hkeep, ih, List.filter_cons_of_pos hkeep, List.append_assoc, Nat.add_assoc, Nat.add_comm 1]
          rfl
        · rw [if_neg hkeep, ih, List.filter_cons_of_neg hkeep, Nat.add_assoc, Nat.add_comm 1]
      · have hname : nameOf key item = none := by
          rw [nameOf, if_neg hstring]
        rw [hname, if_neg (by simp [hstring]), ih, Nat.add_assoc, Nat.add_comm 1]

/-- Comparing as many bytes as the second string has tells whether the first begins with it. -/
theorem compareSubstring_eq_isPrefixOf {as bs : List UInt8} (hb : (0 : UInt8) ∉ bs) :
    compareSubstring as bs bs.length = bs.isPrefixOf as := by
  induction bs generalizing as with
  | nil => simp [compareSubstring]
  | cons b bs ih =>
      cases as with
      | nil => rfl
      | cons a as =>
          have hzero : b ≠ 0 := fun h => hb (h ▸ List.mem_cons_self)
          rw [List.length_cons, compareSubstring, List.isPrefixOf_cons_cons]
          by_cases hab : a = b
          · subst hab
            rw [if_neg (by simp [hzero]), ih fun h => hb (List.mem_cons_of_mem _ h)]
            simp
          · rw [if_pos (.inl hab)]
            simp [Ne.symm hab]

section Listing

variable {pages : ListingPages}

/-- The items of page `n`, counted from zero. -/
def itemsOnPage (pages : ListingPages) (n : Nat) : List CJson := arrayForEach (pages (n + 1))

/-- The pages asked for, when the `n` in front of the first empty one are not: whole groups, the last of which has
    that page in it. All their requests can be made. -/
def RequestsFit (githubToken : CString) (pageUrl : Nat → CString) (workerCount n : Nat) : Prop :=
  ∀ k < workerCount * (n / workerCount + 1), GetFits githubToken (pageUrl (1 + k))

instance (githubToken : CString) (pageUrl : Nat → CString) (workerCount n : Nat) :
    Decidable (RequestsFit githubToken pageUrl workerCount n) :=
  inferInstanceAs (Decidable (∀ k < workerCount * (n / workerCount + 1), GetFits githubToken (pageUrl (1 + k))))

/-- The kept names, page by page or of the whole listing. -/
theorem names_upToEmpty (key : CString) (keep : CString → Bool) (hend : ∃ n, itemsOnPage pages n = []) :
    (List.range' 1 (Nat.find hend)).flatMap
        (fun page => ((arrayForEach (pages page)).filterMap (nameOf key)).filter keep)
      = ((Paged.upToEmpty (itemsOnPage pages) hend).filterMap (nameOf key)).filter keep := by
  have hshift : Paged.upToEmpty (itemsOnPage pages) hend
      = Paged.concat (fun page => arrayForEach (pages page)) 1 (Nat.find hend) :=
    Paged.concat_shift (fun page => arrayForEach (pages page)) 0 (Nat.find hend)
  rw [hshift, Paged.concat, List.filterMap_flatMap, List.filter_flatMap]

/-- **What the loops return**: the names that are kept, of the items on the pages in front of the first empty one. -/
theorem retrieveNames_eq {workerCount : Nat} (hw : 0 < workerCount) (githubToken : CString) (pageUrl : Nat → CString)
    (key : CString) (keep : CString → Bool) (hend : ∃ n, itemsOnPage pages n = []) {fuel : Nat}
    (hfuel : Nat.find hend < fuel) :
    (RequestsFit githubToken pageUrl workerCount (Nat.find hend) →
      retrieveNames fuel workerCount pages githubToken pageUrl key keep
        = .ok (((Paged.upToEmpty (itemsOnPage pages) hend).filterMap (nameOf key)).filter keep)) ∧
    (¬ RequestsFit githubToken pageUrl workerCount (Nat.find hend) →
      retrieveNames fuel workerCount pages githubToken pageUrl key keep = .error .exit) := by
  have hgood : ∀ page, GetFits githubToken (pageUrl page) →
      (assignGithubGet githubToken (pageUrl page)).map (fun _ => ()) = .ok () := by
    intro page hfits
    rw [assignGithubGet_ok hfits]
    rfl
  have hbad : ∀ page, ¬ GetFits githubToken (pageUrl page) →
      (assignGithubGet githubToken (pageUrl page)).map (fun _ => ()) = .error .exit := by
    intro page hlong
    rw [assignGithubGet_exit hlong]
    rfl
  have hread : ∀ items result, namesLoop key keep items result 0
      = (result ++ (items.filterMap (nameOf key)).filter keep, items.length) := by
    intro items result
    rw [namesLoop_eq, Nat.zero_add]
  have hempty : arrayForEach (pages (1 + Nat.find hend)) = [] := by
    rw [Nat.add_comm]
    exact Nat.find_spec hend
  have hfull : ∀ k < Nat.find hend, arrayForEach (pages (1 + k)) ≠ [] := by
    intro k hk
    rw [Nat.add_comm]
    exact Nat.find_min hend hk
  obtain ⟨hok, herror⟩ : _ ∧ (_ → retrieveNames fuel workerCount pages githubToken pageUrl key keep = _) :=
    Paged.readGroups_eq hgood hbad hread rfl hw hempty hfull
      (Nat.lt_of_le_of_lt (Nat.div_le_self _ _) hfuel)
  rw [names_upToEmpty] at hok
  refine ⟨hok, fun hlong => herror ?_⟩
  unfold RequestsFit at hlong
  push Not at hlong
  exact hlong

end Listing

/-- **Grouped pagination loses and repeats nothing.** Whatever the pages of a listing are, as long as some page is
    empty: the three functions end, and return the names, in order and each as often as it is listed, that are strings
    on the pages in front of the first empty one; of the repositories those that begin with the prefix. It does not
    matter where in a group that page is. A request that does not fit its buffers ends the program instead. -/
theorem grouped_pagination (pages : ListingPages) (githubToken organization team namePrefix : CString)
    (hend : ∃ n, itemsOnPage pages n = []) :
    ∃ rounds, ∀ fuel, rounds ≤ fuel →
      ((RequestsFit githubToken (membersPageUrl organization team) 4 (Nat.find hend) →
          retrieveTeamMembers fuel pages githubToken organization team
            = .ok ((Paged.upToEmpty (itemsOnPage pages) hend).filterMap (nameOf (CString.lit "login")))) ∧
        (¬ RequestsFit githubToken (membersPageUrl organization team) 4 (Nat.find hend) →
          retrieveTeamMembers fuel pages githubToken organization team = .error .exit)) ∧
      ((RequestsFit githubToken (invitationsPageUrl organization team) 4 (Nat.find hend) →
          retrieveExistingInvitations fuel pages githubToken organization team
            = .ok ((Paged.upToEmpty (itemsOnPage pages) hend).filterMap (nameOf (CString.lit "login")))) ∧
        (¬ RequestsFit githubToken (invitationsPageUrl organization team) 4 (Nat.find hend) →
          retrieveExistingInvitations fuel pages githubToken organization team = .error .exit)) ∧
      ((RequestsFit githubToken (reposPageUrl organization) 8 (Nat.find hend) →
          retrieveReposByPrefix fuel pages githubToken organization namePrefix
            = .ok (((Paged.upToEmpty (itemsOnPage pages) hend).filterMap (nameOf (CString.lit "name"))).filter
                fun name => namePrefix.bytes <+: name.bytes)) ∧
        (¬ RequestsFit githubToken (reposPageUrl organization) 8 (Nat.find hend) →
          retrieveReposByPrefix fuel pages githubToken organization namePrefix = .error .exit)) := by
  refine ⟨Nat.find hend + 1, fun fuel hfuel => ⟨?_, ?_, ?_⟩⟩
  · have h := retrieveNames_eq (by decide : 0 < 4) githubToken (membersPageUrl organization team) (CString.lit "login")
      (fun _ => true) hend hfuel
    rwa [List.filter_true] at h
  · have h := retrieveNames_eq (by decide : 0 < 4) githubToken (invitationsPageUrl organization team)
      (CString.lit "login") (fun _ => true) hend hfuel
    rwa [List.filter_true] at h
  · have hkeep : (fun name : CString => compareSubstring name.bytes namePrefix.bytes namePrefix.length)
        = fun name => decide (namePrefix.bytes <+: name.bytes) := by
      funext name
      rw [show namePrefix.length = namePrefix.bytes.length from rfl, compareSubstring_eq_isPrefixOf namePrefix.noNul,
        Bool.eq_iff_iff, List.isPrefixOf_iff_prefix, decide_eq_true_iff]
    rw [← hkeep]
    exact retrieveNames_eq (by decide) githubToken (reposPageUrl organization) (CString.lit "name") _ hend hfuel

/-- A listing of five pages with one member each, whose second group of four starts with the last of them. -/
def fivePages : ListingPages := fun page =>
  if page ≤ 5 then some (.array [.object [(CString.lit "login", .string (CString.ofBytes (decimal page)))]])
  else some (.array [])

theorem fivePages_end : ∃ n, itemsOnPage fivePages n = [] := ⟨5, rfl⟩

theorem find_fivePages : Nat.find fivePages_end = 5 :=
  (Nat.find_eq_iff fivePages_end).mpr ⟨rfl, by decide⟩

theorem grouped_pagination_five :
    ∃ rounds, ∀ fuel, rounds ≤ fuel →
      retrieveTeamMembers fuel fivePages (CString.lit "ghp_x") (CString.lit "course") (CString.lit "tas")
        = .ok [CString.lit "1", CString.lit "2", CString.lit "3", CString.lit "4", CString.lit "5"] := by
  obtain ⟨rounds, hrounds⟩ := grouped_pagination fivePages (CString.lit "ghp_x") (CString.lit "course")
    (CString.lit "tas") (CString.lit "hw1") fivePages_end
  refine ⟨rounds, fun fuel hfuel => ?_⟩
  obtain ⟨⟨hmembers, -⟩, -, -⟩ := hrounds fuel hfuel
  rw [Paged.upToEmpty, find_fivePages] at hmembers
  exact hmembers (by decide +kernel)

end Hand2
