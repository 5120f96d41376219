import Hand2.Fetch.Get
import Hand2.Json
import Hand2.Library.Lockstep
import Hand2.Library.Paged

/-!
# `Announce.IssueNumbers` — `retrieve_issue_numbers_by_title`

The issues of up to 64 repositories are listed at a time, page by page, until a page shows an issue with the title
or is empty. A repository without such an issue keeps the number zero, which is no issue's number. What the function
comes to is one search of each repository's whole listing (`retrieveIssueNumbersByTitle_ends`).
-/

namespace Hand2

open CJson

/-- The responses to a listing of issues, by repository and page number. -/
abbrev IssuePages := CString → Nat → Option CJson

/-- `"https://api.github.com/repos/%s/%s/issues?state=all&per_page=100&page=%d"`. -/
def issuesPageUrl (organization repo : CString) (page : Nat) : CString :=
  CString.lit "https://api.github.com/repos/" ++ organization ++ CString.lit "/" ++ repo
    ++ CString.lit "/issues?state=all&per_page=100&page=" ++ CString.ofBytes (decimal page)

def idJson (issue : CJson) : Option CJson := getObjectItemCaseSensitive (some issue) (CString.lit "number")
def titleJson (issue : CJson) : Option CJson := getObjectItemCaseSensitive (some issue) (CString.lit "title")

/-- The condition that ends the search. -/
def isIssueTitled (title : CString) (issue : CJson) : Bool :=
  isNumber (idJson issue) && isStringEq (titleJson issue) title

/-- The `cJSON_ArrayForEach` loop: `out_numbers[at + i]` and `worker_done[i]`. -/
def issuePageLoop (title : CString) : List CJson → Nat → Int → Int × Bool
  | [],              issueCountInPage, out => (out, issueCountInPage == 0)
  | issue :: issues, issueCountInPage, out =>
      if isIssueTitled title issue then (valueint (idJson issue), true)
      else issuePageLoop title issues (issueCountInPage + 1) out

/-- One page of one repository. -/
def issuePage (title : CString) (response : Option CJson) (out : Int) : Int × Bool :=
  issuePageLoop title (arrayForEach response) 0 out

/-- The two inner loops, for one repository and page: the request and its response. -/
def issueNumbersStep (pages : IssuePages) (repos : List CString) (githubToken organization title : CString)
    (start i page : Nat) (out : Int) : Except Fault (Int × Bool) := do
  -- a url that does not fit ends the program, whatever other repositories are left
  let _ ← assignGithubGet githubToken (issuesPageUrl organization (elem repos (start + i)) page)
  .ok (issuePage title (pages (elem repos (start + i)) page) out)

/-- `retrieve_issue_numbers_by_title`: the array `out_numbers`. -/
def retrieveIssueNumbersByTitle (fuel : Nat) (pages : IssuePages) (repos : List CString)
    (githubToken organization title : CString) : Except Fault (Nat → Int) :=
  Lockstep.run .outOfFuel (issueNumbersStep pages repos githubToken organization title) maxWorker repos.length 1 fuel
    (fun _ => 0)

/-! ## One repository -/

/-- The number of the first issue with the title, zero if there is none. -/
def issueNumberIn (title : CString) (issues : List CJson) : Int :=
  match issues.find? (isIssueTitled title) with
  | some issue => valueint (idJson issue)
  | none       => 0

/-- The loop finds the first issue with the title, and is done with a page that shows none only if it is empty. -/
theorem issuePageLoop_eq (title : CString) (issues : List CJson) (issueCountInPage : Nat) (out : Int) :
    issuePageLoop title issues issueCountInPage out =
      match issues.find? (isIssueTitled title) with
      | some issue => (valueint (idJson issue), true)
      | none       => (out, issues.length + issueCountInPage == 0) := by
  induction issues generalizing issueCountInPage with
  | nil => simp [issuePageLoop]
  | cons issue issues ih =>
      rw [issuePageLoop, List.find?_cons]
      cases htitled : isIssueTitled title issue with
      | true => rfl
      | false =>
          rw [ih]
          simp only [List.length_cons, Nat.add_assoc, Nat.add_comm 1, Bool.false_eq_true, if_false]

/-- The pages of a listing. -/
def issuesOnPage (response : Nat → Option CJson) (n : Nat) : List CJson := arrayForEach (response (n + 1))

/-- What a page comes to. -/
theorem issuePage_eq (title : CString) (response : Nat → Option CJson) (p : Nat) (out : Int) :
    issuePage title (response (p + 1)) out =
      match (issuesOnPage response p).find? (isIssueTitled title) with
      | some issue => (valueint (idJson issue), true)
      | none       => (out, (issuesOnPage response p).length == 0) :=
  issuePageLoop_eq title (issuesOnPage response p) 0 out

/-- A page on which the search ends. -/
def EndsSearch (title : CString) (issues : List CJson) : Prop :=
  issues = [] ∨ ∃ issue ∈ issues, isIssueTitled title issue = true

/-- On such a page a repository is done, with the number of the issue if there is one. -/
theorem issuePage_done {title : CString} {response : Nat → Option CJson} {p : Nat}
    (hends : EndsSearch title (issuesOnPage response p)) :
    issuePage title (response (p + 1)) 0 = (issueNumberIn title (issuesOnPage response p), true) := by
  rw [issuePage_eq, issueNumberIn]
  rcases hends with hempty | ⟨issue, hissue, htitled⟩
  · rw [hempty]
    rfl
  · obtain ⟨first, hfirst⟩ := Option.isSome_iff_exists.mp (List.find?_isSome.mpr ⟨issue, hissue, htitled⟩)
    rw [hfirst]

/-- On any other page it is not. -/
theorem issuePage_next {title : CString} {response : Nat → Option CJson} {p : Nat}
    (hnext : ¬ EndsSearch title (issuesOnPage response p)) : issuePage title (response (p + 1)) 0 = (0, false) := by
  have hnone : (issuesOnPage response p).find? (isIssueTitled title) = none :=
    List.find?_eq_none.mpr fun issue hissue htitled => hnext (.inr ⟨issue, hissue, htitled⟩)
  have hlen : ¬ (issuesOnPage response p).length = 0 := by
    rw [List.length_eq_zero_iff]
    exact fun hempty => hnext (.inl hempty)
  rw [issuePage_eq, hnone]
  simp [hlen]

/-- Issues without the title in front of a listing change nothing. -/
theorem issueNumberIn_append_right {title : CString} {issues : List CJson} (rest : List CJson)
    (h : ∀ issue ∈ issues, ¬ isIssueTitled title issue = true) :
    issueNumberIn title (issues ++ rest) = issueNumberIn title rest := by
  unfold issueNumberIn
  rw [List.find?_append, List.find?_eq_none.mpr h, Option.none_or]

/-- Nor do issues behind one that has it. -/
theorem issueNumberIn_append_left {title : CString} {issues : List CJson} (rest : List CJson)
    (h : ∃ issue ∈ issues, isIssueTitled title issue = true) :
    issueNumberIn title (issues ++ rest) = issueNumberIn title issues := by
  unfold issueNumberIn
  obtain ⟨issue, hissue, htitled⟩ := h
  obtain ⟨first, hfirst⟩ := Option.isSome_iff_exists.mp (List.find?_isSome.mpr ⟨issue, hissue, htitled⟩)
  rw [List.find?_append, hfirst, Option.some_or]

section Alone

variable (githubToken organization title repo : CString) (response : Nat → Option CJson)

/-- The url of page `p`, counted from zero, fits its buffer, and the header does. -/
def IssuesUrlFits (p : Nat) : Prop := GetFits githubToken (issuesPageUrl organization repo (p + 1))

/-- Page `p` is asked for: the search does not end on a page before it. -/
def PageAsked (p : Nat) : Prop := ∀ j < p, ¬ EndsSearch title (issuesOnPage response j)

/-- The step of a repository. -/
def lookUpPage (page : Nat) (out : Int) : Except Fault (Int × Bool) := do
  let _ ← assignGithubGet githubToken (issuesPageUrl organization repo page)
  .ok (issuePage title (response page) out)

variable {githubToken organization title repo response}

theorem lookUpPage_ok {p : Nat} (hfits : IssuesUrlFits githubToken organization repo p) (out : Int) :
    lookUpPage githubToken organization title repo response (p + 1) out
      = .ok (issuePage title (response (p + 1)) out) := by
  rw [lookUpPage, assignGithubGet_ok hfits]
  rfl

theorem lookUpPage_exit {p : Nat} (hlong : ¬ IssuesUrlFits githubToken organization repo p) (out : Int) :
    lookUpPage githubToken organization title repo response (p + 1) out = .error .exit := by
  rw [lookUpPage, assignGithubGet_exit hlong]
  rfl

/-- **A repository on its own**, `q` pages away from the one its search ends on: if the urls up to there fit it ends
    with what that page shows, and otherwise the program does. -/
theorem lookUpPage_soloRun (githubToken organization repo : CString) (p q : Nat)
    (hnext : ∀ j < q, ¬ EndsSearch title (issuesOnPage response (p + j)))
    (hends : EndsSearch title (issuesOnPage response (p + q))) :
    ((∀ j ≤ q, IssuesUrlFits githubToken organization repo (p + j)) →
      Lockstep.soloRun .outOfFuel (lookUpPage githubToken organization title repo response) (q + 1) (p + 1) 0 =
        .ok (issueNumberIn title (issuesOnPage response (p + q)))) ∧
    ((∃ j ≤ q, ¬ IssuesUrlFits githubToken organization repo (p + j)) →
      Lockstep.soloRun .outOfFuel (lookUpPage githubToken organization title repo response) (q + 1) (p + 1) 0 =
        .error .exit) := by
  induction q generalizing p with
  | zero =>
      refine ⟨fun hfits => ?_, fun ⟨j, hj, hlong⟩ => ?_⟩
      · rw [Lockstep.soloRun_succ (lookUpPage_ok (hfits 0 (Nat.le_refl 0)) 0), issuePage_done hends]
        rfl
      · obtain rfl : j = 0 := Nat.le_zero.mp hj
        exact Lockstep.soloRun_error (lookUpPage_exit hlong 0) 0
  | succ q ih =>
      by_cases hfits : IssuesUrlFits githubToken organization repo p
      · -- the page shows no such issue and is not empty, so the next one is asked for
        have hshift : ∀ j, p + 1 + j = p + (j + 1) := fun j => by omega
        obtain ⟨hok, hexit⟩ := ih (p + 1) (fun j hj => by rw [hshift]; exact hnext (j + 1) (by omega))
          (by rw [hshift]; exact hends)
        rw [Lockstep.soloRun_succ (lookUpPage_ok hfits 0), issuePage_next (hnext 0 (by omega)), ← hshift q]
        refine ⟨fun hall => hok ?_, fun ⟨j, hj, hlong⟩ => hexit ?_⟩
        · intro j hj
          rw [hshift]
          exact hall (j + 1) (by omega)
        · cases j with
          | zero   => exact absurd hfits hlong
          | succ j =>
              refine ⟨j, by omega, ?_⟩
              rwa [hshift]
      · exact ⟨fun hall => absurd (hall 0 (by omega)) hfits,
          fun _ => Lockstep.soloRun_error (lookUpPage_exit hfits 0) _⟩

/-- The same from the first page on, with more rounds than needed. -/
theorem lookUpPage_alone (githubToken organization repo : CString) {q fuel : Nat} (hnext : PageAsked title response q)
    (hends : EndsSearch title (issuesOnPage response q)) (hfuel : q + 1 ≤ fuel) :
    ((∀ j ≤ q, IssuesUrlFits githubToken organization repo j) →
      Lockstep.soloRun .outOfFuel (lookUpPage githubToken organization title repo response) fuel 1 0 =
        .ok (issueNumberIn title (issuesOnPage response q))) ∧
    ((∃ j ≤ q, ¬ IssuesUrlFits githubToken organization repo j) →
      Lockstep.soloRun .outOfFuel (lookUpPage githubToken organization title repo response) fuel 1 0
        = .error .exit) := by
  have hzero : ∀ j, 0 + j = j := Nat.zero_add
  obtain ⟨hok, hexit⟩ := lookUpPage_soloRun githubToken organization repo 0 q
    (fun j hj => by rw [hzero]; exact hnext j hj) (by rw [hzero]; exact hends)
  simp only [hzero] at hok hexit
  exact ⟨fun hfits => Lockstep.soloRun_mono hfuel (hok hfits),
    fun hlong => Lockstep.soloRun_error_mono hfuel (by simp) (hexit hlong)⟩

/-- Whatever the fuel, a number that is returned is the one shown there. -/
theorem eq_issueNumberIn_of_soloRun {q fuel : Nat} {number : Int} (hnext : PageAsked title response q)
    (hends : EndsSearch title (issuesOnPage response q))
    (h : Lockstep.soloRun .outOfFuel (lookUpPage githubToken organization title repo response) fuel 1 0 = .ok number) :
    number = issueNumberIn title (issuesOnPage response q) := by
  have hmore := Lockstep.soloRun_mono (Nat.le_max_left fuel (q + 1)) h
  obtain ⟨hok, hexit⟩ := lookUpPage_alone githubToken organization repo hnext hends (Nat.le_max_right fuel (q + 1))
  -- more fuel does not change what has been returned
  by_cases hfits : ∀ j ≤ q, IssuesUrlFits githubToken organization repo j
  · rw [hok hfits] at hmore
    injection hmore with hmore
    exact hmore.symm
  · rw [hexit (by simpa using hfits)] at hmore
    cases hmore

/-- The search of a listing ends on one of its pages. -/
theorem exists_pageAsked (title : CString) (hend : ∃ n, issuesOnPage response n = []) :
    ∃ q, EndsSearch title (issuesOnPage response q) ∧ ∀ p, PageAsked title response p ↔ p ≤ q := by
  classical
  have hex : ∃ q, EndsSearch title (issuesOnPage response q) := hend.imp fun n hn => .inl hn
  refine ⟨Nat.find hex, Nat.find_spec hex, fun p => ?_⟩
  constructor
  · intro hasked
    by_contra hlate
    exact hasked _ (Nat.lt_of_not_le hlate) (Nat.find_spec hex)
  · exact fun hp j hj => Nat.find_min hex (Nat.lt_of_lt_of_le hj hp)

/-- What the page shows on which the search ends is what the whole listing shows. -/
theorem issueNumberIn_upToEmpty {q : Nat} (hend : ∃ n, issuesOnPage response n = [])
    (hnext : PageAsked title response q) (hends : EndsSearch title (issuesOnPage response q)) :
    issueNumberIn title (Paged.upToEmpty (issuesOnPage response) hend) =
      issueNumberIn title (issuesOnPage response q) := by
  have hle : q ≤ Nat.find hend := by
    by_contra hlate
    exact hnext _ (Nat.lt_of_not_le hlate) (.inl (Nat.find_spec hend))
  obtain ⟨n, hn⟩ := Nat.exists_eq_add_of_le hle
  have hbefore : ∀ issue ∈ Paged.concat (issuesOnPage response) 0 q, ¬ isIssueTitled title issue = true := by
    intro issue hissue htitled
    obtain ⟨k, -, hk, hon⟩ := Paged.mem_concat.mp hissue
    exact hnext k (by omega) (.inr ⟨issue, hon, htitled⟩)
  rw [Paged.upToEmpty, hn, Paged.concat_add, issueNumberIn_append_right _ hbefore, Nat.zero_add]
  cases n with
  | zero =>
      -- the search has come to the empty page
      have hempty : issuesOnPage response q = [] := by
        rw [← Nat.add_zero q, ← hn]
        exact Nat.find_spec hend
      rw [hempty, Paged.concat_zero]
  | succ n =>
      have hfull : issuesOnPage response q ≠ [] := Nat.find_min hend (by omega)
      rw [Paged.concat_succ, issueNumberIn_append_left _ (hends.resolve_left hfull)]

end Alone

/-! ## All repositories -/

section Repositories

variable (pages : IssuePages) (repos : List CString) (githubToken organization title : CString)

/-- The listing of every repository comes to an empty page. -/
def ListingsEnd : Prop := ∀ repo ∈ repos, ∃ n, issuesOnPage (pages repo) n = []

theorem elem_mem {repos : List CString} {k : Nat} (hk : k < repos.length) : elem repos k ∈ repos := by
  rw [elem, List.getD_eq_getElem _ _ hk]
  exact List.getElem_mem hk

/-- The issues the listing of repository `k` shows. -/
def listedIssues (hend : ListingsEnd pages repos) (k : Nat) : List CJson :=
  if hk : k < repos.length then Paged.upToEmpty (issuesOnPage (pages (elem repos k))) (hend _ (elem_mem hk)) else []

/-- The step of repository `k`. -/
def lookUpAt (k : Nat) : Nat → Int → Except Fault (Int × Bool) :=
  lookUpPage githubToken organization title (elem repos k) (pages (elem repos k))

theorem issueNumbersStep_eq (start i : Nat) (_ : start + i < repos.length) (page : Nat) (out : Int) :
    issueNumbersStep pages repos githubToken organization title start i page out =
      lookUpAt pages repos githubToken organization title (start + i) page out := rfl

/-- Numbers that are returned are those each repository ends with on its own. -/
theorem issueNumbers_alone {fuel : Nat} {issueNumbers : Nat → Int}
    (h : retrieveIssueNumbersByTitle fuel pages repos githubToken organization title = .ok issueNumbers) {k : Nat}
    (hk : k < repos.length) :
    Lockstep.soloRun .outOfFuel (lookUpAt pages repos githubToken organization title k) fuel 1 0
      = .ok (issueNumbers k) := by
  exact Lockstep.soloRun_of_run maxWorker_pos (issueNumbersStep_eq pages repos githubToken organization title) h hk

/-- All pages of a repository that are asked for have urls that fit. -/
def IssuesUrlsFit (repo : CString) : Prop :=
  ∀ p, PageAsked title (pages repo) p → IssuesUrlFits githubToken organization repo p

/-- A repository whose listing ends is done within some rounds. -/
theorem lookUpPage_ends (hend : ListingsEnd pages repos) {k : Nat} (hk : k < repos.length) :
    ∃ rounds, ∀ fuel, rounds ≤ fuel →
      (IssuesUrlsFit pages githubToken organization title (elem repos k) →
        Lockstep.soloRun .outOfFuel (lookUpAt pages repos githubToken organization title k) fuel 1 0 =
          .ok (issueNumberIn title (listedIssues pages repos hend k))) ∧
      (¬ IssuesUrlsFit pages githubToken organization title (elem repos k) →
        Lockstep.soloRun .outOfFuel (lookUpAt pages repos githubToken organization title k) fuel 1 0 =
          .error .exit) := by
  obtain ⟨q, hends, hasked⟩ := exists_pageAsked title (hend _ (elem_mem hk))
  have hnext := (hasked q).mpr (Nat.le_refl q)
  refine ⟨q + 1, fun fuel hfuel => ?_⟩
  obtain ⟨hok, hexit⟩ := lookUpPage_alone githubToken organization (elem repos k) hnext hends hfuel
  constructor
  · intro hfits
    rw [listedIssues, dif_pos hk, issueNumberIn_upToEmpty _ hnext hends]
    exact hok fun j hj => hfits j ((hasked j).mpr hj)
  · intro hlong
    apply hexit
    by_contra hall
    apply hlong
    intro p hp
    by_contra hp'
    exact hall ⟨p, (hasked p).mp hp, hp'⟩

/-- Whatever the fuel, numbers that are returned are those of the first issues with the title. -/
theorem issueNumbers_eq {fuel : Nat} (hend : ListingsEnd pages repos) {issueNumbers : Nat → Int}
    (h : retrieveIssueNumbersByTitle fuel pages repos githubToken organization title = .ok issueNumbers) {k : Nat}
    (hk : k < repos.length) : issueNumbers k = issueNumberIn title (listedIssues pages repos hend k) := by
  obtain ⟨q, hends, hasked⟩ := exists_pageAsked title (hend _ (elem_mem hk))
  have hnext := (hasked q).mpr (Nat.le_refl q)
  rw [listedIssues, dif_pos hk, issueNumberIn_upToEmpty _ hnext hends]
  exact eq_issueNumberIn_of_soloRun hnext hends (issueNumbers_alone pages repos githubToken organization title h hk)

/-- **The function, repository by repository.** With enough fuel it ends: with the number of the first issue that has
    the title in the whole listing of each repository, or, if and only if some url does not fit, with the program. -/
theorem retrieveIssueNumbersByTitle_ends (hend : ListingsEnd pages repos) :
    ∃ rounds, ∀ fuel, rounds ≤ fuel →
      ((∀ k < repos.length, IssuesUrlsFit pages githubToken organization title (elem repos k)) →
        ∃ issueNumbers, retrieveIssueNumbersByTitle fuel pages repos githubToken organization title = .ok issueNumbers ∧
          ∀ k < repos.length, issueNumbers k = issueNumberIn title (listedIssues pages repos hend k)) ∧
      ((∃ k < repos.length, ¬ IssuesUrlsFit pages githubToken organization title (elem repos k)) →
        retrieveIssueNumbersByTitle fuel pages repos githubToken organization title = .error .exit) := by
  obtain ⟨rounds, hrounds⟩ := Lockstep.exists_common_fuel
    fun k (hk : k < repos.length) => lookUpPage_ends pages repos githubToken organization title hend hk
  refine ⟨rounds, fun fuel hfuel => ?_⟩
  obtain ⟨hok, hexit⟩ := Lockstep.run_cells
    (fun k => IssuesUrlsFit pages githubToken organization title (elem repos k)) maxWorker_pos
    (issueNumbersStep_eq pages repos githubToken organization title)
    (fun k hk hfits => ⟨_, (hrounds fuel hfuel k hk).1 hfits⟩) (fun k hk => (hrounds fuel hfuel k hk).2)
  refine ⟨fun hfits => ⟨_, hok hfits, fun k hk => ?_⟩, hexit⟩
  exact issueNumbers_eq pages repos githubToken organization title hend (hok hfits) hk

/-! ## Well-formed listings -/

/-- Every issue of the listings has a number and a title. -/
def WellFormedIssues : Prop := ∀ repo ∈ repos, ∀ n, ∀ issue ∈ issuesOnPage (pages repo) n,
  isNumber (idJson issue) = true ∧ isString (titleJson issue) = true

/-- The number of the first issue with that very title, zero if there is none. -/
def numberOfFirst (issues : List CJson) : Int :=
  match issues.find? (fun issue => valuestring (titleJson issue) = title) with
  | some issue => valueint (idJson issue)
  | none       => 0

/-- The issues of a listing are those of its pages. -/
theorem exists_page_of_listed {hend : ListingsEnd pages repos} {k : Nat} {issue : CJson}
    (h : issue ∈ listedIssues pages repos hend k) :
    k < repos.length ∧ ∃ n, issue ∈ issuesOnPage (pages (elem repos k)) n := by
  unfold listedIssues at h
  split at h
  · next hk =>
      obtain ⟨n, -, -, hissue⟩ := Paged.mem_concat.mp h
      exact ⟨hk, n, hissue⟩
  · exact absurd h List.not_mem_nil

variable {pages repos title}

/-- On issues that are well formed the search is for the title. -/
theorem issueNumberIn_eq_numberOfFirst {issues : List CJson}
    (h : ∀ issue ∈ issues, isNumber (idJson issue) = true ∧ isString (titleJson issue) = true) :
    issueNumberIn title issues = numberOfFirst title issues := by
  induction issues with
  | nil => rfl
  | cons issue issues ih =>
      obtain ⟨hnumber, htitle⟩ := h issue List.mem_cons_self
      have htitled : isIssueTitled title issue = decide (valuestring (titleJson issue) = title) := by
        rw [Bool.eq_iff_iff, isIssueTitled, isStringEq, hnumber, htitle]
        simp
      have hrest := ih fun issue hissue => h issue (List.mem_cons_of_mem _ hissue)
      unfold issueNumberIn numberOfFirst at hrest ⊢
      rw [List.find?_cons, List.find?_cons, htitled]
      cases decide (valuestring (titleJson issue) = title) with
      | true  => rfl
      | false => exact hrest

/-- **The first issue of the title in every repository.** With well-formed listings that end, however many
    repositories there are and however their issues are cut into pages, the function ends. The number it gives a
    repository is that of the first issue with the title in its own listing, zero if there is none. It does not return
    if and only if the url of a page it asks for does not fit its buffer, which ends the program. -/
theorem retrieveIssueNumbersByTitle_numberOfFirst (githubToken organization : CString) (hend : ListingsEnd pages repos)
    (hwell : WellFormedIssues pages repos) :
    ∃ rounds, ∀ fuel, rounds ≤ fuel →
      ((∀ k < repos.length, IssuesUrlsFit pages githubToken organization title (elem repos k)) →
        ∃ issueNumbers, retrieveIssueNumbersByTitle fuel pages repos githubToken organization title = .ok issueNumbers ∧
          ∀ k < repos.length, issueNumbers k = numberOfFirst title (listedIssues pages repos hend k)) ∧
      ((∃ k < repos.length, ¬ IssuesUrlsFit pages githubToken organization title (elem repos k)) →
        retrieveIssueNumbersByTitle fuel pages repos githubToken organization title = .error .exit) := by
  obtain ⟨rounds, hrounds⟩ := retrieveIssueNumbersByTitle_ends pages repos githubToken organization title hend
  refine ⟨rounds, fun fuel hfuel => ⟨fun hfits => ?_, (hrounds fuel hfuel).2⟩⟩
  obtain ⟨issueNumbers, hok, hnumbers⟩ := (hrounds fuel hfuel).1 hfits
  refine ⟨issueNumbers, hok, fun k hk => ?_⟩
  rw [hnumbers k hk]
  apply issueNumberIn_eq_numberOfFirst
  intro issue hissue
  obtain ⟨-, n, hpage⟩ := exists_page_of_listed pages repos hissue
  exact hwell _ (elem_mem hk) n issue hpage

/-- An issue as GitHub lists it. -/
def issueJson (number : Int) (title : String) : CJson :=
  .object [(CString.lit "number", .number number), (CString.lit "title", .string (CString.lit title))]

/-- The pages of two listings: the second page of one has the title twice, and the other one ends without it. -/
def twiceListed (repo : CString) : List (List CJson) :=
  if repo = CString.lit "hw1-ann" then
    [[issueJson 9 "Grade for hw2"],
      [issueJson 8 "grade for hw1", issueJson 7 "Grade for hw1", issueJson 5 "Grade for hw1"]]
  else [[issueJson 4 "Grade for hw3"]]

def twicePages : IssuePages := fun repo page => some (.array ((twiceListed repo).getD (page - 1) []))

def twiceRepos : List CString := [CString.lit "hw1-ann", CString.lit "hw1-bob"]

/-- The search of either ends on the second page. -/
theorem twicePages_ends : ∀ repo ∈ twiceRepos,
    EndsSearch (CString.lit "Grade for hw1") (issuesOnPage (twicePages repo) 1) := by
  intro repo hrepo
  simp only [twiceRepos, List.mem_cons, List.not_mem_nil, or_false] at hrepo
  rcases hrepo with rfl | rfl
  · exact .inr ⟨issueJson 7 "Grade for hw1", List.mem_cons_of_mem _ List.mem_cons_self, by decide⟩
  · exact .inl rfl

/-- So no url is long. -/
theorem twicePages_urls : ∀ repo ∈ twiceRepos, IssuesUrlsFit twicePages (CString.lit "ghp_x") (CString.lit "course")
    (CString.lit "Grade for hw1") repo := by
  intro repo hrepo p hasked
  have hle : p ≤ 1 := by
    by_contra hlate
    exact hasked 1 (Nat.lt_of_not_le hlate) (twicePages_ends repo hrepo)
  have hurls : ∀ repo ∈ twiceRepos, ∀ p ≤ 1, IssuesUrlFits (CString.lit "ghp_x") (CString.lit "course") repo p := by
    unfold IssuesUrlFits
    decide +kernel
  exact hurls repo hrepo p hle

theorem twicePages_end : ListingsEnd twicePages twiceRepos := by
  intro repo hrepo
  simp only [twiceRepos, List.mem_cons, List.not_mem_nil, or_false] at hrepo
  rcases hrepo with rfl | rfl
  · exact ⟨2, rfl⟩
  · exact ⟨1, rfl⟩

theorem twicePages_wellFormed : WellFormedIssues twicePages twiceRepos := by
  intro repo hrepo n
  simp only [twiceRepos, List.mem_cons, List.not_mem_nil, or_false] at hrepo
  match n with
  | 0     => rcases hrepo with rfl | rfl <;> decide
  | 1     => rcases hrepo with rfl | rfl <;> decide
  | n + 2 => rcases hrepo with rfl | rfl <;> exact fun issue hissue => absurd hissue List.not_mem_nil

theorem retrieveIssueNumbersByTitle_numberOfFirst_twice :
    ∃ rounds, ∀ fuel, rounds ≤ fuel →
      ∃ issueNumbers, retrieveIssueNumbersByTitle fuel twicePages twiceRepos (CString.lit "ghp_x")
        (CString.lit "course") (CString.lit "Grade for hw1") = .ok issueNumbers ∧
        issueNumbers 0 = 7 ∧ issueNumbers 1 = 0 := by
  have hfits : ∀ k < twiceRepos.length, IssuesUrlsFit twicePages (CString.lit "ghp_x") (CString.lit "course")
      (CString.lit "Grade for hw1") (elem twiceRepos k) := fun k hk => twicePages_urls _ (elem_mem hk)
  have hann : listedIssues twicePages twiceRepos twicePages_end 0 =
      Paged.concat (issuesOnPage (twicePages (CString.lit "hw1-ann"))) 0 2 :=
    Paged.upToEmpty_eq rfl (by decide)
  have hbob : listedIssues twicePages twiceRepos twicePages_end 1 =
      Paged.concat (issuesOnPage (twicePages (CString.lit "hw1-bob"))) 0 1 :=
    Paged.upToEmpty_eq rfl (by decide)
  obtain ⟨rounds, hrounds⟩ := retrieveIssueNumbersByTitle_numberOfFirst (CString.lit "ghp_x") (CString.lit "course")
    twicePages_end twicePages_wellFormed
  refine ⟨rounds, fun fuel hfuel => ?_⟩
  obtain ⟨issueNumbers, hok, hnumbers⟩ := (hrounds fuel hfuel).1 hfits
  refine ⟨issueNumbers, hok, ?_, ?_⟩
  · rw [hnumbers 0 (by decide), hann]
    decide
  · rw [hnumbers 1 (by decide), hbob]
    decide

end Repositories

end Hand2
