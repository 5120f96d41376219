import Hand2.Announce.Github
import Hand2.Announce.IssueNumbers
import Hand2.Announce.Requests
import Hand2.Feedback.Issues
import Hand2.Scores.Grade

/-!
# `Announce.Grades` — `announce_grade`

The issue numbers are looked up before anything is sent: a repository whose number is not zero has its issue edited,
any other gets a new one. A row of the sheet finds its repository by name. A run that ends early, by an error message
or with the process, leaves what it has sent until then; so the loop over the rows carries GitHub in its state, also
where it fails. What one run does is `announced_spec`.
-/

namespace Hand2

/-- A call of `announce_grade`: its arguments but for the title and the organization, and all that it retrieves. -/
structure GradeRun where
  dry : Bool
  githubToken : CString
  /-- The cached feedback repository, if the username and the repository could be retrieved. -/
  feedbackDir : Option CString
  /-- The repository asked for if it exists, or else those listed with the title as prefix. -/
  repos : Option (List CString)
  issuePages : IssuePages
  fuel : Nat
  sheet : Sheet
  studentLabel : CString
  idLabel : CString
  /-- The cached feedback repository, and all else that there is on the disk. -/
  files : Files
  /-- How the request of a row fares. -/
  fate : Nat → RequestFate

/-- A request that was sent. -/
structure Sent where
  row : Nat
  repo : CString
  /-- The issue to edit, or zero for a new one. -/
  issueNumber : Int
  body : CString
  request : IssueRequest
  /-- The issue that was edited or created, if the request succeeded. -/
  issue : Option IssueNumber

/-- GitHub and what the run has done so far. -/
structure Announced where
  github : Github
  sent : List Sent
  announcementCount : Nat
  failureCount : Nat

/-- Before the first row. -/
def Announced.start (github : Github) : Announced := ⟨github, [], 0, 0⟩

/-- What the loop over the rows works with. -/
structure AnnouncePlan where
  issueTitle : CString
  repos : List CString
  issueNumbers : Nat → Int
  studentX : Nat
  issueBodies : List CString

section Run

variable (title organization : CString)

/-- `"Grade for %s"`. -/
def gradeTitle : CString := CString.lit "Grade for " ++ title

/-- `"%s/%s/reports"`. -/
def feedbackReportDir (feedbackDir : CString) : CString :=
  feedbackDir ++ CString.lit "/" ++ title ++ CString.lit "/reports"

/-- The report of row `y`. -/
def readReport (run : GradeRun) (feedbackReportDir : CString) (idX y : Nat) : Except Fault CString := do
  let studentId ← getValue run.sheet idX y
  let path ← formatString maxPathLen (reportPath feedbackReportDir studentId)
  let content ← run.files.readEntireFile path
  .ok (CString.ofBytes content)

/-- `announce_grade` up to the loop that sends the requests: nothing where it ends before, after an error message. -/
def planAnnouncement (run : GradeRun) : Except Fault (Option AnnouncePlan) :=
  match run.feedbackDir with
  | none => .ok none
  | some feedbackDir => do
      let issueTitle ← formatString 256 (gradeTitle title)
      let reportDir ← formatString maxPathLen (feedbackReportDir title feedbackDir)
      match run.repos with
      | none => .ok none
      | some repos => do
          let issueNumbers ← retrieveIssueNumbersByTitle run.fuel run.issuePages repos run.githubToken organization
            issueTitle
          if run.sheet.width > 0 ∧ run.sheet.height > 0 then
            match findLabel run.sheet run.studentLabel, findLabel run.sheet run.idLabel with
            | some studentX, some idX => do
                let reports ← (List.range run.sheet.height).mapM (readReport run reportDir idX)
                let formatted ← formatFeedbackIssues reports run.sheet
                .ok (if formatted.1 then some ⟨issueTitle, repos, issueNumbers, studentX, formatted.2⟩ else none)
            | _, _ => .ok none
          else .ok none

/-- A request of row `y` has been answered. -/
def Announced.send (s : Announced) (fate : RequestFate) (y : Nat) (repo : CString) (issueNumber : Int)
    (body : CString) (request : IssueRequest) (change : Option (Tracker × IssueNumber)) : Announced :=
  let answer := s.github.answer fate repo change
  { s with
    github := answer.1
    sent := s.sent ++ [⟨y, repo, issueNumber, body, request, answer.2⟩]
    failureCount := if fate.reported then s.failureCount else s.failureCount + 1 }

/-- The body of the loop over the rows. -/
def announceRow (run : GradeRun) (plan : AnnouncePlan) (s : Announced) (y : Nat) :
    Except (Fault × Announced) Announced := do
  let student ← failingIn s (getValue run.sheet plan.studentX y)
  let reqRepo ← failingIn s (formatString 256 (repositoryName title student))
  match findIndexCaseInsensitive plan.repos reqRepo with
  | none => .ok s
  | some index => do
      -- counted before it is sent, and in a dry run as well
      let s := { s with announcementCount := s.announcementCount + 1 }
      let repo := elem plan.repos index
      let body := elem plan.issueBodies y
      let number := plan.issueNumbers index
      if number ≠ 0 then
        if run.dry then .ok s
        else do
          let request ← failingIn s (editIssue run.githubToken organization repo plan.issueTitle body number)
          .ok (s.send (run.fate y) y repo number body request
            ((s.github (repoKey repo)).edit number plan.issueTitle body))
      else
        if run.dry then .ok s
        else do
          let request ← failingIn s (createIssue run.githubToken organization repo plan.issueTitle body)
          .ok (s.send (run.fate y) y repo 0 body request
            ((s.github (repoKey repo)).create (run.fate y).number plan.issueTitle body))

/-- `announce_grade`. -/
def announceGrade (run : GradeRun) (github : Github) : Except (Fault × Announced) Announced := do
  let plan ← failingIn (Announced.start github) (planAnnouncement title organization run)
  match plan with
  | none      => .ok (Announced.start github)
  | some plan =>
      (List.range run.sheet.height).foldlM (announceRow title organization run plan) (Announced.start github)

/-- What a run leaves, however it ends. -/
def afterAnnouncing (run : GradeRun) (github : Github) : Announced :=
  Loops.final (announceGrade title organization run github)

end Run

/-! ## Listings that show what there is -/

/-- An item of a listing is that issue. -/
structure Shows (json : CJson) (issue : Issue) : Prop where
  number : idJson json = some (.number issue.number.val)
  title : titleJson json = some (.string issue.title)

/-- The pages in front of the first empty one show the issues, in some order. -/
def ShowsAll (response : Nat → Option CJson) (issues : List Issue) : Prop :=
  ∃ n shown, (∀ k < n, issuesOnPage response k ≠ []) ∧ issuesOnPage response n = [] ∧ shown.Perm issues ∧
    List.Forall₂ Shows (Paged.concat (issuesOnPage response) 0 n) shown

/-- The search of a listing stops at an item if its issue has the title. -/
theorem isIssueTitled_eq {json : CJson} {issue : Issue} (h : Shows json issue) (title : CString) :
    isIssueTitled title json = compareString issue.title title ∧ CJson.valueint (idJson json) = issue.number.val := by
  unfold isIssueTitled CJson.isStringEq
  rw [h.number, h.title]
  exact ⟨by simp [CJson.isNumber, CJson.isString, CJson.valuestring], rfl⟩

/-- The search of a listing is the search of the issues it shows. -/
theorem issueNumberIn_shown {items : List CJson} {shown : List Issue} (h : List.Forall₂ Shows items shown)
    (title : CString) :
    issueNumberIn title items = firstNumber (shown.filter (fun issue => compareString issue.title title)) := by
  unfold issueNumberIn
  induction h with
  | nil => rfl
  | @cons json issue items shown hshows _ ih =>
      obtain ⟨htitled, hnumber⟩ := isIssueTitled_eq hshows title
      rw [List.find?_cons, List.filter_cons, htitled]
      cases compareString issue.title title with
      | true  => exact hnumber
      | false => exact ih

/-- **With at most one issue of the title, the search finds its number** in a listing that shows everything. -/
theorem issueNumberIn_showsAll {response : Nat → Option CJson} {tracker : Tracker} {title : CString}
    (hshows : ShowsAll response tracker.issues) (hone : (tracker.titled title).length ≤ 1)
    (hend : ∃ n, issuesOnPage response n = []) :
    issueNumberIn title (Paged.upToEmpty (issuesOnPage response) hend) = tracker.titledNumber title := by
  obtain ⟨n, shown, hpages, hempty, hperm, hitems⟩ := hshows
  rw [Paged.upToEmpty_eq hempty hpages, issueNumberIn_shown hitems, Tracker.titledNumber]
  have htitled : (shown.filter (fun issue => compareString issue.title title)).Perm (tracker.titled title) :=
    hperm.filter _
  -- a listing shows the issues in any order, which does not matter for one issue
  have hsame : shown.filter (fun issue => compareString issue.title title) = tracker.titled title := by
    cases h : tracker.titled title with
    | nil =>
        rw [h] at htitled
        exact htitled.eq_nil
    | cons issue issues =>
        rw [h] at hone htitled
        obtain rfl : issues = [] := List.length_eq_zero_iff.mp (by simpa using hone)
        exact List.perm_singleton.mp htitled
  rw [hsame]

end Hand2
