import Hand2.Announce.Repeat

/-!
# `Announce.Incomplete` — listings of which a page does not arrive

A request that fails delivers an empty body, which parses to nothing, just as the page behind the last one shows
nothing. The loops take both for the end of the listing. So an issue is found if and only if no request fails up to
the page that shows it, and where one fails `announce_grade` creates a second issue of the title.
-/

namespace Hand2

open CJson

/-- What the requests for a listing deliver when some of them fail. -/
def delivered (listing : Nat → Option CJson) (failed : Nat → Bool) (page : Nat) : Option CJson :=
  if failed page then none else listing page

/-! ## The search -/

section Search

variable {title : CString} {listing : Nat → Option CJson} {failed : Nat → Bool}

/-- A page whose request fails shows nothing. -/
theorem issuesOnPage_failed {p : Nat} (h : failed (p + 1) = true) :
    issuesOnPage (delivered listing failed) p = [] := by
  rw [issuesOnPage, delivered, if_pos h]
  rfl

/-- Any other shows what is on it. -/
theorem issuesOnPage_delivered {p : Nat} (h : failed (p + 1) = false) :
    issuesOnPage (delivered listing failed) p = issuesOnPage listing p := by
  rw [issuesOnPage, delivered, h]
  rfl

/-- Page `p`, counted from zero, is the first that shows an issue with the title, and no page before it is empty. -/
structure FirstShownOn (title : CString) (listing : Nat → Option CJson) (p : Nat) : Prop where
  asked : PageAsked title listing p
  titled : ∃ issue ∈ issuesOnPage listing p, isIssueTitled title issue = true
  numbered : ∀ issue ∈ issuesOnPage listing p, isNumber (idJson issue) = true → valueint (idJson issue) ≠ 0

/-- Such a page shows an issue's number. -/
theorem FirstShownOn.issueNumberIn_ne {p : Nat} (h : FirstShownOn title listing p) :
    issueNumberIn title (issuesOnPage listing p) ≠ 0 := by
  obtain ⟨issue, hissue, htitled⟩ := h.titled
  obtain ⟨first, hfirst⟩ := Option.isSome_iff_exists.mp (List.find?_isSome.mpr ⟨issue, hissue, htitled⟩)
  have hnumber : isNumber (idJson first) = true := by
    have hfound := List.find?_some hfirst
    rw [isIssueTitled, Bool.and_eq_true] at hfound
    exact hfound.1
  rw [issueNumberIn, hfirst]
  exact h.numbered first (List.mem_of_find?_eq_some hfirst) hnumber

/-- The search of what is delivered ends on that page if it gets there, and on the first page that fails if not. -/
theorem FirstShownOn.search {p : Nat} (failed : Nat → Bool) (h : FirstShownOn title listing p) :
    ∃ q, PageAsked title (delivered listing failed) q ∧
      EndsSearch title (issuesOnPage (delivered listing failed) q) ∧
      (issueNumberIn title (issuesOnPage (delivered listing failed) q) ≠ 0 ↔ ∀ j ≤ p, failed (j + 1) = false) := by
  by_cases hall : ∀ j ≤ p, failed (j + 1) = false
  · refine ⟨p, ?_, ?_, ?_⟩
    · intro j hj
      rw [issuesOnPage_delivered (hall j (Nat.le_of_lt hj))]
      exact h.asked j hj
    · rw [issuesOnPage_delivered (hall p (Nat.le_refl p))]
      exact .inr h.titled
    · rw [issuesOnPage_delivered (hall p (Nat.le_refl p))]
      exact ⟨fun _ => hall, fun _ => h.issueNumberIn_ne⟩
  · have hex : ∃ j, j ≤ p ∧ failed (j + 1) = true := by
      by_contra hnone
      exact hall fun j hj => by simpa using fun hfailed => hnone ⟨j, hj, hfailed⟩
    obtain ⟨hle, hfailed⟩ := Nat.find_spec hex
    refine ⟨Nat.find hex, ?_, ?_, ?_⟩
    · -- before the first failure the pages are as listed, and none of them ends the search
      intro j hj
      have hj' : failed (j + 1) = false := by
        simpa using fun hfailed => Nat.find_min hex hj ⟨by omega, hfailed⟩
      rw [issuesOnPage_delivered hj']
      exact h.asked j (by omega)
    · exact .inl (issuesOnPage_failed hfailed)
    · rw [issuesOnPage_failed hfailed]
      exact ⟨fun hne => absurd rfl hne, fun hall' => absurd hall' hall⟩

end Search

/-- **What a repository is given depends on the failures in front of its issue.** -/
theorem issueNumber_ne_iff {fuel : Nat} {pages : IssuePages} {repos : List CString}
    {githubToken organization title : CString}
    {issueNumbers : Nat → Int} {listing : Nat → Option CJson} {failed : Nat → Bool} {p k : Nat}
    (h : FirstShownOn title listing p) (hk : k < repos.length)
    (hpages : pages (elem repos k) = delivered listing failed)
    (hrun : retrieveIssueNumbersByTitle fuel pages repos githubToken organization title = .ok issueNumbers) :
    issueNumbers k ≠ 0 ↔ ∀ j ≤ p, failed (j + 1) = false := by
  obtain ⟨q, hasked, hends, hfound⟩ := h.search failed
  rw [← hpages] at hasked hends hfound
  rw [← hfound]
  rw [eq_issueNumberIn_of_soloRun hasked hends (issueNumbers_alone pages repos githubToken organization title hrun hk)]

/-! ## The requests of a run -/

section Run

variable (title organization : CString) (run : GradeRun) (github : Github)

/-- A record goes back to a listed repository and the number the run has found for it. -/
structure Sent.Listed (plan : AnnouncePlan) (sent : Sent) : Prop where
  index : ∃ index < plan.repos.length, sent.repo = elem plan.repos index ∧
    sent.issueNumber = plan.issueNumbers index
  request : sent.requestFor organization run plan = .ok sent.request

variable {title organization run github}

theorem RowSends.listed {plan : AnnouncePlan} {s s' : Announced} {y : Nat} {sent : Sent}
    (h : RowSends organization run plan title s s' y sent) : sent.Listed organization run plan := by
  obtain ⟨student, index, -, hindex, hrepo, hnumber⟩ := h.student
  exact ⟨⟨index, (findIndexCaseInsensitive_spec hindex).1, hrepo, hnumber⟩, h.request⟩

/-- **Every record of a run** is such a record, wherever the run ends. -/
theorem listed_of_sent {sent : Sent} (hsent : sent ∈ (afterAnnouncing title organization run github).sent) :
    ∃ plan, Planned title organization run plan ∧ sent.Listed organization run plan := by
  unfold afterAnnouncing announceGrade at hsent
  cases hplan : planAnnouncement title organization run with
  | error e =>
      rw [hplan] at hsent
      exact absurd hsent List.not_mem_nil
  | ok plan =>
      rw [hplan] at hsent
      cases plan with
      | none      => exact absurd hsent List.not_mem_nil
      | some plan =>
          obtain ⟨-, -, hall⟩ := rows_final title organization run plan github
            (fun _ s => ∀ sent ∈ s.sent, sent.Listed organization run plan)
            (fun _ hmem => absurd hmem List.not_mem_nil)
            (fun hs _ hsame _ sent hmem => hs sent (hsame ▸ hmem))
            (fun hs hsends sent hmem => ((hsends.mem_iff sent).mp hmem).elim (hs sent) fun heq => heq ▸ hsends.listed)
            run.sheet.height
          exact ⟨plan, planned_of_plan hplan, hall sent hsent⟩

/-- A record is of a creation if and only if the repository was given no number. -/
theorem Sent.Listed.postType_iff {plan : AnnouncePlan} {sent : Sent} (h : sent.Listed organization run plan) :
    sent.request.postType = CString.lit "POST" ↔ sent.issueNumber = 0 := by
  have hrequest := h.request
  unfold Sent.requestFor at hrequest
  split at hrequest
  · next hedit =>
      have hne : CString.lit "PATCH" ≠ CString.lit "POST" := by decide
      rw [eq_of_postRequest hrequest]
      exact ⟨fun h => absurd h hne, fun h => absurd h hedit⟩
  · next hcreate =>
      rw [eq_of_postRequest hrequest]
      exact ⟨fun _ => not_not.mp hcreate, fun _ => rfl⟩

end Run

/-! ## The whole run -/

/-- **An issue is found if and only if no request fails up to its page.** Take a repository whose listing shows an
    issue with the title, and let any of the requests for it fail. The search gives the repository a number, and
    every request that `announce_grade` sends to it is no creation, in any run at all, if and only if no request fails
    for the pages up to the first that shows the issue. -/
theorem existing_issue_found_iff (title organization : CString) {pages : IssuePages} {repo : CString}
    {listing : Nat → Option CJson} {failed : Nat → Bool} {p : Nat} (h : FirstShownOn (gradeTitle title) listing p)
    (hpages : pages repo = delivered listing failed) :
    (∀ fuel repos githubToken issueNumbers k,
      retrieveIssueNumbersByTitle fuel pages repos githubToken organization (gradeTitle title) = .ok issueNumbers →
      k < repos.length → elem repos k = repo →
      (issueNumbers k ≠ 0 ↔ ∀ j ≤ p, failed (j + 1) = false)) ∧
    ∀ run github, run.issuePages = pages →
      ∀ sent ∈ (afterAnnouncing title organization run github).sent, sent.repo = repo →
        (sent.request.postType ≠ CString.lit "POST" ↔ ∀ j ≤ p, failed (j + 1) = false) := by
  have hsearch : ∀ fuel repos githubToken issueNumbers k,
      retrieveIssueNumbersByTitle fuel pages repos githubToken organization (gradeTitle title) = .ok issueNumbers →
      k < repos.length → elem repos k = repo →
      (issueNumbers k ≠ 0 ↔ ∀ j ≤ p, failed (j + 1) = false) := by
    intro fuel repos githubToken issueNumbers k hrun hk hrepo
    apply issueNumber_ne_iff h hk _ hrun
    rw [hrepo, hpages]
  refine ⟨hsearch, ?_⟩
  rintro run github rfl sent hsent hrepo
  obtain ⟨plan, hplan, hlisted⟩ := listed_of_sent hsent
  obtain ⟨index, hindex, helem, hnumber⟩ := hlisted.index
  have hrun := hplan.issueNumbers
  rw [hplan.issueTitle] at hrun
  rw [Ne, hlisted.postType_iff, hnumber]
  exact hsearch run.fuel plan.repos run.githubToken plan.issueNumbers index hrun hindex (helem ▸ hrepo)

/-- The listing of the issue that the first run of the course has created. -/
def annListing (page : Nat) : Option CJson := some (.array (if page = 1 then [annIssue] else []))

/-- What is delivered of it when the request for one page fails. -/
def annDelivered (failed : Nat) : IssuePages := fun _ => delivered annListing fun page => page == failed

theorem annListing_shown : FirstShownOn (gradeTitle (CString.lit "hw1")) annListing 0 where
  asked := fun _ hj => absurd hj (Nat.not_lt_zero _)
  titled := ⟨annIssue, List.mem_singleton_self annIssue, by decide⟩
  numbered := by decide

set_option maxRecDepth 2000 in
theorem existing_issue_found_iff_ann :
    ∃ issueNumbers, retrieveIssueNumbersByTitle 3 (annDelivered 2) [CString.lit "hw1-ann"] (CString.lit "ghp_x")
      (CString.lit "course") (gradeTitle (CString.lit "hw1")) = .ok issueNumbers ∧ issueNumbers 0 ≠ 0 := by
  have hpages : annDelivered 2 (CString.lit "hw1-ann") = delivered annListing fun page => page == 2 := rfl
  obtain ⟨hsearch, -⟩ := existing_issue_found_iff (CString.lit "hw1") (CString.lit "course") annListing_shown hpages
  refine ⟨_, rfl, ?_⟩
  apply (hsearch 3 [CString.lit "hw1-ann"] (CString.lit "ghp_x") _ 0 rfl Nat.zero_lt_one rfl).mpr
  decide

/-- The second run of her course, with the request for the first page failing. -/
def annIncomplete : GradeRun :=
  { annRun [annIssue] (CString.lit "9/20") with
    issuePages := annDelivered 1
    fate := fun _ => ⟨true, ⟨5, by decide⟩, true⟩ }

set_option maxRecDepth 2000 in
/-- **A second issue of the title**: the listing shows the issue on its first page, the request for that page fails,
    and the run creates another. -/
theorem existing_issue_missed :
    FirstShownOn (gradeTitle (CString.lit "hw1")) annListing 0 ∧
    (∃ issueNumbers, retrieveIssueNumbersByTitle 3 annIncomplete.issuePages [CString.lit "hw1-ann"]
      (CString.lit "ghp_x") (CString.lit "course") (gradeTitle (CString.lit "hw1")) = .ok issueNumbers ∧
      issueNumbers 0 = 0) ∧
    (afterAnnouncing (CString.lit "hw1") (CString.lit "course") annIncomplete annGraded.github).sent.map
        (fun sent => sent.request.postType) = [CString.lit "POST"] ∧
    ((afterAnnouncing (CString.lit "hw1") (CString.lit "course") annIncomplete annGraded.github).github
      (repoKey (CString.lit "hw1-ann"))).issues.map Issue.title =
        [CString.lit "Grade for hw1", CString.lit "Grade for hw1"] := by
  refine ⟨annListing_shown, ⟨_, rfl, rfl⟩, ?_, ?_⟩
  · decide +kernel
  · decide +kernel

end Hand2
