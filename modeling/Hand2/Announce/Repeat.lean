import Hand2.Announce.Rows

/-!
# `Announce.Repeat` — announcing grades again and again

Every run looks the issue numbers up before it sends anything. A run that fails in part leaves every repository either
with one issue for the grade or as it was, which is all the next run needs: it finds that issue, and edits it.
-/

namespace Hand2

/-! ## One run -/

/-- What a run can rely on: its listings show all issues there are, and its sheet has no student twice. -/
structure Faithful (title : CString) (github : Github) (run : GradeRun) : Prop where
  listings : ∀ repos, run.repos = some repos → ∀ repo ∈ repos,
    ShowsAll (run.issuePages repo) (github (repoKey repo)).issues
  students : ∀ studentX, findLabel run.sheet run.studentLabel = some studentX → DistinctStudents run.sheet studentX

/-- No repository has two issues for the grade. -/
def OneTitled (title : CString) (github : Github) : Prop :=
  ∀ key, ((github key).titled (gradeTitle title)).length ≤ 1

section Run

variable {title organization : CString} {run : GradeRun} {github : Github}

/-- A faithful run finds the numbers of the issues there are. -/
theorem listed_of_faithful {plan : AnnouncePlan} (hplan : Planned title organization run plan)
    (hfaithful : Faithful title github run) (hone : OneTitled title github) : Listed plan github := by
  have hshows := hfaithful.listings plan.repos hplan.repos
  have hend : ListingsEnd run.issuePages plan.repos := by
    intro repo hrepo
    obtain ⟨n, -, -, hempty, -⟩ := hshows repo hrepo
    exact ⟨n, hempty⟩
  intro index hindex
  rw [issueNumbers_eq run.issuePages plan.repos run.githubToken organization plan.issueTitle hend hplan.issueNumbers
    hindex,
    listedIssues, dif_pos hindex]
  apply issueNumberIn_showsAll (hshows _ (elem_mem hindex))
  rw [hplan.issueTitle]
  exact hone _

variable (organization)

/-- **What one run does**: nothing at all, or what its rows do. -/
theorem announced_spec (hfaithful : Faithful title github run) (hone : OneTitled title github) :
    ((afterAnnouncing title organization run github).sent = [] ∧
      (afterAnnouncing title organization run github).github = github) ∨
    ∃ plan, planAnnouncement title organization run = .ok (some plan) ∧ plan.issueTitle = gradeTitle title ∧
      ∃ y, RowsDone title organization run plan github (afterAnnouncing title organization run github) y := by
  unfold afterAnnouncing announceGrade
  cases hplan : planAnnouncement title organization run with
  | error e => exact .inl ⟨rfl, rfl⟩
  | ok plan? =>
      cases plan? with
      | none => exact .inl ⟨rfl, rfl⟩
      | some plan =>
          have hplanned := planned_of_plan hplan
          have hdistinct := hfaithful.students _ hplanned.studentX
          have hone' : ∀ key, ((github key).titled plan.issueTitle).length ≤ 1 := by
            rw [hplanned.issueTitle]
            exact hone
          obtain ⟨y, -, hrows⟩ := rowsDone_final title organization
            (listed_of_faithful hplanned hfaithful hone) hdistinct hone' run.sheet.height
          exact .inr ⟨plan, rfl, hplanned.issueTitle, y, hrows⟩

/-- **A run that comes to its end sends to every student** whose repository is listed, unless it is a dry one. -/
theorem announceGrade_sends {plan : AnnouncePlan} {s : Announced} (hdry : run.dry = false)
    (hplan : planAnnouncement title organization run = .ok (some plan))
    (hrun : announceGrade title organization run github = .ok s) {y : Nat} (hy : y < run.sheet.height)
    {student : CString} {index : Nat} (hstudent : getValue run.sheet plan.studentX y = .ok student)
    (hindex : findIndexCaseInsensitive plan.repos (repositoryName title student) = some index) :
    ∃ sent ∈ s.sent, sent.row = y := by
  unfold announceGrade at hrun
  rw [hplan] at hrun
  exact rows_send title organization hdry hrun hy hstudent hindex

/-- A repository that a request of the run has succeeded for has one issue for the grade, the rest is as it was. -/
theorem announced_repository (hfaithful : Faithful title github run) (hone : OneTitled title github)
    (key : List UInt8) :
    (afterAnnouncing title organization run github).github key = github key ∨
    ∃ sent ∈ (afterAnnouncing title organization run github).sent, repoKey sent.repo = key ∧ ∃ number,
      sent.issue = some number ∧
        ((afterAnnouncing title organization run github).github key).titled (gradeTitle title)
          = [⟨number, gradeTitle title, sent.body⟩] := by
  rcases announced_spec organization hfaithful hone with ⟨-, hsame⟩ | ⟨plan, -, htitle, y, hrows⟩
  · rw [hsame]
    exact .inl rfl
  -- the repository is as it was unless one of the requests to it has succeeded
  · by_cases hnone : ∀ sent ∈ (afterAnnouncing title organization run github).sent,
        repoKey sent.repo = key → sent.issue = none
    · exact .inl (hrows.untouched key hnone)
    · push Not at hnone
      obtain ⟨sent, hsent, rfl, hissue⟩ := hnone
      obtain ⟨number, hnumber⟩ := Option.ne_none_iff_exists'.mp hissue
      have hsettled := (hrows.settled sent hsent number hnumber).1
      rw [htitle] at hsettled
      exact .inr ⟨sent, hsent, rfl, number, hnumber, hsettled⟩

/-- **A run leaves no repository with two issues for the grade.** -/
theorem oneTitled_announced (hfaithful : Faithful title github run) (hone : OneTitled title github) :
    OneTitled title (afterAnnouncing title organization run github).github := by
  intro key
  rcases announced_repository organization hfaithful hone key with
    hsame | ⟨sent, -, -, number, -, htitled⟩
  · rw [hsame]
    exact hone key
  · rw [htitled]
    exact Nat.le_refl 1

end Run

/-! ## Many runs -/

/-- Runs after another, each with what it has left. -/
inductive Announcements (title organization : CString) (start : Github) : List (GradeRun × Announced) → Github → Prop
    where
  | start : Announcements title organization start [] start
  | run {runs : List (GradeRun × Announced)} {github : Github} {run : GradeRun} :
      Announcements title organization start runs github → Faithful title github run →
      Announcements title organization start (runs ++ [(run, afterAnnouncing title organization run github)])
        (afterAnnouncing title organization run github).github

/-- The body of a request is what the run has formatted for the row of the repository's student. -/
def FormattedFor (title organization : CString) (run : GradeRun) (sent : Sent) : Prop :=
  ∃ plan student, planAnnouncement title organization run = .ok (some plan) ∧
    getValue run.sheet plan.studentX sent.row = .ok student ∧
    EqIgnoreCase sent.repo (repositoryName title student) ∧ sent.body = elem plan.issueBodies sent.row

/-- Grades can be announced again and again. -/
structure Repeatable (title organization : CString) (runs : List (GradeRun × Announced)) : Prop where
  /-- No run leaves a repository with two issues for the grade. -/
  single : ∀ r ∈ runs, OneTitled title r.2.github
  /-- After a request has succeeded, the requests of later runs to the repository edit that issue. -/
  edits : runs.Pairwise fun earlier later =>
    ∀ sent ∈ earlier.2.sent, ∀ number, sent.issue = some number →
    ∀ again ∈ later.2.sent, repoKey again.repo = repoKey sent.repo →
      editIssue later.1.githubToken organization again.repo (gradeTitle title) again.body number.val =
        .ok again.request
  /-- A request that has succeeded leaves one issue for the grade, with the body formatted for the student. -/
  bodies : ∀ r ∈ runs, ∀ sent ∈ r.2.sent, ∀ number, sent.issue = some number →
    (r.2.github (repoKey sent.repo)).titled (gradeTitle title) = [⟨number, gradeTitle title, sent.body⟩] ∧
      FormattedFor title organization r.1 sent

section Runs

variable {title organization : CString} {start github : Github} {runs : List (GradeRun × Announced)}

/-- The issue for the grade is this one. -/
def Settled (title : CString) (github : Github) (key : List UInt8) (number : IssueNumber) : Prop :=
  ∃ issue, (github key).titled (gradeTitle title) = [issue] ∧ issue.number = number

/-- A request that has succeeded leaves one issue for the grade, with what the run has formatted. -/
theorem formatted_of_sent {run : GradeRun} {sent : Sent} {number : IssueNumber} (hfaithful : Faithful title github run)
    (hone : OneTitled title github) (hsent : sent ∈ (afterAnnouncing title organization run github).sent)
    (hissue : sent.issue = some number) :
    ((afterAnnouncing title organization run github).github (repoKey sent.repo)).titled (gradeTitle title) =
        [⟨number, gradeTitle title, sent.body⟩] ∧ FormattedFor title organization run sent := by
  rcases announced_spec organization hfaithful hone with ⟨hnothing, -⟩ | ⟨plan, hplan, htitle, y, hrows⟩
  · rw [hnothing] at hsent
    exact absurd hsent List.not_mem_nil
  · have hright := hrows.right sent hsent
    obtain ⟨student, hstudent, hname⟩ := hright.student
    have htitled := (hrows.settled sent hsent number hissue).1
    rw [htitle] at htitled
    exact ⟨htitled, plan, student, hplan, hstudent, hname, hright.body⟩

/-- A request to a repository that has its issue edits that issue. -/
theorem edit_of_settled {run : GradeRun} {sent : Sent} {number : IssueNumber} (hfaithful : Faithful title github run)
    (hone : OneTitled title github) (hsettled : Settled title github (repoKey sent.repo) number)
    (hsent : sent ∈ (afterAnnouncing title organization run github).sent) :
    sent.issueNumber = number.val ∧
      editIssue run.githubToken organization sent.repo (gradeTitle title) sent.body number.val = .ok sent.request := by
  obtain ⟨issue, htitled, rfl⟩ := hsettled
  rcases announced_spec organization hfaithful hone with ⟨hnothing, -⟩ | ⟨plan, -, htitle, y, hrows⟩
  · rw [hnothing] at hsent
    exact absurd hsent List.not_mem_nil
  · have hright := hrows.right sent hsent
    have hnumber : sent.issueNumber = issue.number.val := by
      rw [hright.issueNumber, htitle, Tracker.titledNumber_of_cons htitled]
    have hrequest := hright.request
    -- no issue has the number zero, so the request is an edit
    rw [Sent.requestFor, hnumber, if_pos (Int.ne_of_gt issue.number.property.1), htitle] at hrequest
    exact ⟨hnumber, hrequest⟩

/-- It keeps that issue. -/
theorem settled_announced {run : GradeRun} {key : List UInt8} {number : IssueNumber}
    (hfaithful : Faithful title github run) (hone : OneTitled title github)
    (hsettled : Settled title github key number) :
    Settled title (afterAnnouncing title organization run github).github key number := by
  rcases announced_repository organization hfaithful hone key with hsame | ⟨sent, hsent, rfl, number', hissue, htitled⟩
  · unfold Settled
    rw [hsame]
    exact hsettled
  · -- the request was an edit, so it was this issue that it changed
    refine ⟨_, htitled, ?_⟩
    obtain ⟨hnumber, -⟩ := edit_of_settled hfaithful hone hsettled hsent
    rcases announced_spec organization hfaithful hone with ⟨hnothing, -⟩ | ⟨plan, -, -, y, hrows⟩
    · rw [hnothing] at hsent
      exact absurd hsent List.not_mem_nil
    · rcases (hrows.settled sent hsent number' hissue).2 with hzero | hsame
      · rw [hzero] at hnumber
        exact absurd hnumber.symm (Int.ne_of_gt number.property.1)
      · apply Subtype.ext
        rw [← hnumber, ← hsame]

/-- **Runs of announcements.** -/
theorem announcements_invariant (h : Announcements title organization start runs github)
    (hstart : OneTitled title start) :
    OneTitled title github ∧ Repeatable title organization runs ∧
      ∀ r ∈ runs, ∀ sent ∈ r.2.sent, ∀ number, sent.issue = some number →
        Settled title github (repoKey sent.repo) number := by
  induction h with
  | start => exact ⟨hstart, ⟨by simp, .nil, by simp⟩, by simp⟩
  | @run runs github run hruns hfaithful ih =>
      obtain ⟨hone, hrepeatable, hsettled⟩ := ih
      have hone' := oneTitled_announced organization hfaithful hone
      have hbody : ∀ sent ∈ (afterAnnouncing title organization run github).sent, ∀ number,
          sent.issue = some number → _ := fun sent hsent number hissue =>
        formatted_of_sent hfaithful hone hsent hissue
      have hlast : ∀ (P : GradeRun × Announced → Prop), (∀ r ∈ runs, P r) →
          P (run, afterAnnouncing title organization run github) →
          ∀ r ∈ runs ++ [(run, afterAnnouncing title organization run github)], P r := by
        intro P hbefore hnow r hr
        rcases List.mem_append.mp hr with hin | hin
        · exact hbefore r hin
        · exact List.mem_singleton.mp hin ▸ hnow
      refine ⟨hone', ⟨hlast _ hrepeatable.single hone', ?_, hlast _ hrepeatable.bodies hbody⟩, hlast _ ?_ ?_⟩
      · rw [List.pairwise_append]
        refine ⟨hrepeatable.edits, List.pairwise_singleton .., ?_⟩
        intro r hr last hlast sent hsent number hissue again hagain hsame
        obtain rfl := List.mem_singleton.mp hlast
        -- the issue has outlived the runs between, and the listing of this one shows it
        have hbefore := hsettled r hr sent hsent number hissue
        rw [← hsame] at hbefore
        exact (edit_of_settled hfaithful hone hbefore hagain).2
      · intro r hr sent hsent number hissue
        exact settled_announced hfaithful hone (hsettled r hr sent hsent number hissue)
      · intro sent hsent number hissue
        exact ⟨_, (hbody sent hsent number hissue).1, rfl⟩

end Runs

/-! ### A grade and its correction -/

/-- One student. -/
def annSheet : Sheet where
  width := 2
  height := 1
  labels := [CString.lit "id", CString.lit "github"]
  values := [CString.lit "7", CString.lit "Ann"]
  labels_len := rfl
  values_len := rfl

/-- A run for her repository, with a listing of one page. -/
def annRun (page : List CJson) (report : CString) : GradeRun where
  dry := false
  githubToken := CString.lit "ghp_x"
  feedbackDir := some (CString.lit "cache/feedback_1")
  repos := some [CString.lit "hw1-ann"]
  issuePages := fun _ n => some (.array (if n = 1 then page else []))
  fuel := 3
  sheet := annSheet
  studentLabel := CString.lit "github"
  idLabel := CString.lit "id"
  files := .plain fun _ => report.bytes
  fate := fun _ => ⟨true, ⟨4, by decide⟩, true⟩

theorem annSheet_distinct (studentX : Nat) : DistinctStudents annSheet studentX := by
  intro y y' student student' h h' _
  have hfirst : ∀ z text, getValue annSheet studentX z = .ok text → z = 0 := by
    intro z text hz
    unfold getValue at hz
    split at hz
    · next hrange => exact Nat.lt_one_iff.mp hrange.2
    · cases hz
  rw [hfirst y student h, hfirst y' student' h']

/-- The listing of her repository, before and after. -/
def annIssue : CJson :=
  .object [(CString.lit "number", .number 4), (CString.lit "title", .string (CString.lit "Grade for hw1"))]

/-- Her repository has no issue at first. -/
def annStart : Github := fun _ => Tracker.empty

/-- The first run creates one. -/
def annGraded : Announced :=
  afterAnnouncing (CString.lit "hw1") (CString.lit "course") (annRun [] (CString.lit "8/20")) annStart

theorem annGraded_issues : (annGraded.github (repoKey (CString.lit "hw1-ann"))).issues =
    [⟨⟨4, by decide⟩, CString.lit "Grade for hw1", CString.lit "8/20"⟩] := by
  decide +kernel

/-- An empty listing of an empty repository. -/
theorem annStart_faithful : Faithful (CString.lit "hw1") annStart (annRun [] (CString.lit "8/20")) := by
  refine ⟨?_, fun studentX _ => annSheet_distinct studentX⟩
  intro repos _ repo _
  exact ⟨0, [], by simp, rfl, .refl _, .nil⟩

/-- A listing of the issue that is there by now. -/
theorem annGraded_faithful :
    Faithful (CString.lit "hw1") annGraded.github (annRun [annIssue] (CString.lit "9/20")) := by
  refine ⟨?_, fun studentX _ => annSheet_distinct studentX⟩
  intro repos hrepos repo hrepo
  obtain rfl : [CString.lit "hw1-ann"] = repos := Option.some.inj hrepos
  obtain rfl := List.mem_singleton.mp hrepo
  rw [annGraded_issues]
  refine ⟨1, _, ?_, rfl, .refl _, ?_⟩
  · intro k hk
    obtain rfl : k = 0 := by omega
    exact List.cons_ne_nil _ _
  · exact .cons ⟨rfl, rfl⟩ .nil

/-- The first run has sent her grade. -/
theorem announceGrade_sends_ann : ∃ sent ∈ annGraded.sent, sent.row = 0 := by
  have hplans : ((planAnnouncement (CString.lit "hw1") (CString.lit "course")
      (annRun [] (CString.lit "8/20"))).toOption.bind id).isSome = true := by decide +kernel
  have hends : (announceGrade (CString.lit "hw1") (CString.lit "course") (annRun [] (CString.lit "8/20"))
      annStart).toOption.isSome = true := by decide +kernel
  have hrow : 0 < (annRun [] (CString.lit "8/20")).sheet.height := Nat.one_pos
  cases hplan : planAnnouncement (CString.lit "hw1") (CString.lit "course") (annRun [] (CString.lit "8/20")) with
  | error fault =>
      rw [hplan] at hplans
      cases hplans
  | ok found =>
      cases found with
      | none =>
          rw [hplan] at hplans
          cases hplans
      | some plan =>
          have hplanned := planned_of_plan hplan
          have hstudentX : 1 = plan.studentX := Option.some.inj hplanned.studentX
          have hrepos : [CString.lit "hw1-ann"] = plan.repos := Option.some.inj hplanned.repos
          have hstudent : getValue annSheet plan.studentX 0 = .ok (CString.lit "Ann") := by
            rw [← hstudentX]
            rfl
          have hindex : findIndexCaseInsensitive plan.repos
              (repositoryName (CString.lit "hw1") (CString.lit "Ann")) = some 0 := by
            rw [← hrepos]
            decide
          cases hrun : announceGrade (CString.lit "hw1") (CString.lit "course") (annRun [] (CString.lit "8/20"))
              annStart with
          | error fault =>
              rw [hrun] at hends
              cases hends
          | ok s =>
              have hsent : annGraded.sent = s.sent := by
                rw [annGraded, afterAnnouncing, hrun]
                rfl
              rw [hsent]
              exact announceGrade_sends _ rfl hplan hrun hrow hstudent hindex

end Hand2
