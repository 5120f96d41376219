import Hand2.Announce.Grades

/-!
# `Announce.Rows` — the requests of one run

A row of the sheet sends at most one request, and rows of different students send to different repositories. So a
repository is as the listing showed it when its request is sent, and the request leaves it with one issue of the title,
be it a new one or the one that was there (`RowsDone`). The loop keeps this wherever it ends.
-/

namespace Hand2

/-! ## What a run works with -/

section Plan

variable {title organization : CString} {run : GradeRun} {plan : AnnouncePlan}

/-- Where the parts of a plan come from. -/
structure Planned (title organization : CString) (run : GradeRun) (plan : AnnouncePlan) : Prop where
  issueTitle : plan.issueTitle = gradeTitle title
  repos : run.repos = some plan.repos
  issueNumbers : retrieveIssueNumbersByTitle run.fuel run.issuePages plan.repos run.githubToken organization
    plan.issueTitle = .ok plan.issueNumbers
  studentX : findLabel run.sheet run.studentLabel = some plan.studentX
  issueBodies : ∃ feedbackDir idX reports, run.feedbackDir = some feedbackDir ∧
    findLabel run.sheet run.idLabel = some idX ∧
    (List.range run.sheet.height).mapM (readReport run (feedbackReportDir title feedbackDir) idX) = .ok reports ∧
    formatFeedbackIssues reports run.sheet = .ok (true, plan.issueBodies)

theorem planned_of_plan (h : planAnnouncement title organization run = .ok (some plan)) :
    Planned title organization run plan := by
  unfold planAnnouncement at h
  cases hdir : run.feedbackDir with
  | none =>
      rw [hdir] at h
      cases h
  | some feedbackDir =>
      rw [hdir] at h
      obtain ⟨issueTitle, htitle, h⟩ := Loops.bind_eq_ok h
      obtain ⟨reportDir, hreportDir, h⟩ := Loops.bind_eq_ok h
      cases hrepos : run.repos with
      | none =>
          rw [hrepos] at h
          cases h
      | some repos =>
          rw [hrepos] at h
          obtain ⟨issueNumbers, hnumbers, h⟩ := Loops.bind_eq_ok h
          split at h
          · cases hstudent : findLabel run.sheet run.studentLabel with
            | none =>
                rw [hstudent] at h
                cases h
            | some studentX =>
                cases hid : findLabel run.sheet run.idLabel with
                | none =>
                    rw [hstudent, hid] at h
                    cases h
                | some idX =>
                    rw [hstudent, hid] at h
                    obtain ⟨reports, hreports, h⟩ := Loops.bind_eq_ok h
                    obtain ⟨⟨success, issueBodies⟩, hbodies, h⟩ := Loops.bind_eq_ok h
                    cases success with
                    | false => cases h
                    | true =>
                        injection h with h
                        injection h with h
                        subst h
                        rw [← eq_of_formatString hreportDir] at hreports
                        exact ⟨(eq_of_formatString htitle).symm, hrepos, hnumbers, hstudent,
                          feedbackDir, idX, reports, hdir, hid, hreports, hbodies⟩
          · cases h

end Plan

/-! ## One row -/

section Row

variable (organization : CString) (run : GradeRun) (plan : AnnouncePlan)

/-- The request that a record stands for. -/
def Sent.requestFor (sent : Sent) : Except Fault IssueRequest :=
  if sent.issueNumber ≠ 0 then
    editIssue run.githubToken organization sent.repo plan.issueTitle sent.body sent.issueNumber
  else createIssue run.githubToken organization sent.repo plan.issueTitle sent.body

/-- What the request to a repository makes of its issues. -/
def AnnouncePlan.change (tracker : Tracker) (fresh : IssueNumber) (issueNumber : Int) (body : CString) :
    Option (Tracker × IssueNumber) :=
  if issueNumber ≠ 0 then tracker.edit issueNumber plan.issueTitle body
  else tracker.create fresh plan.issueTitle body

/-- Row `y` sends a request: the record of it, and the state behind it. -/
structure RowSends (title : CString) (s s' : Announced) (y : Nat) (sent : Sent) : Prop where
  row : sent.row = y
  student : ∃ student index, getValue run.sheet plan.studentX y = .ok student ∧
    findIndexCaseInsensitive plan.repos (repositoryName title student) = some index ∧
    sent.repo = elem plan.repos index ∧ sent.issueNumber = plan.issueNumbers index
  body : sent.body = elem plan.issueBodies y
  request : sent.requestFor organization run plan = .ok sent.request
  answer : (s'.github, sent.issue) = s.github.answer (run.fate y) sent.repo
    (plan.change (s.github (repoKey sent.repo)) (run.fate y).number sent.issueNumber sent.body)
  sent : s'.sent = s.sent ++ [sent]

/-- **What a row does**: it has nothing to send, or fails before it sends anything, or sends a request. -/
theorem announceRow_cases (title : CString) (s : Announced) (y : Nat) :
    (∃ s', announceRow title organization run plan s y = .ok s' ∧ s'.github = s.github ∧ s'.sent = s.sent ∧
      (run.dry = true ∨ ∃ student, getValue run.sheet plan.studentX y = .ok student ∧
        findIndexCaseInsensitive plan.repos (repositoryName title student) = none)) ∨
    (∃ e s', announceRow title organization run plan s y = .error (e, s') ∧ s'.github = s.github ∧
      s'.sent = s.sent) ∨
    ∃ s' sent, announceRow title organization run plan s y = .ok s' ∧
      RowSends organization run plan title s s' y sent := by
  unfold announceRow
  cases hstudent : getValue run.sheet plan.studentX y with
  | error e => exact .inr (.inl ⟨e, s, rfl, rfl, rfl⟩)
  | ok student =>
      simp only [failingIn, Bind.bind, Except.bind]
      by_cases hname : (repositoryName title student).length < 256
      case neg =>
          rw [formatString_exit (Nat.not_lt.mp hname)]
          exact .inr (.inl ⟨.exit, s, rfl, rfl, rfl⟩)
      rw [formatString_ok hname]
      dsimp only
      cases hindex : findIndexCaseInsensitive plan.repos (repositoryName title student) with
      | none => exact .inl ⟨s, rfl, rfl, rfl, .inr ⟨student, rfl, hindex⟩⟩
      | some index =>
          dsimp only
          -- the row counts, whether its request can be made or not
          let counted : Announced := { s with announcementCount := s.announcementCount + 1 }
          by_cases hnumber : plan.issueNumbers index ≠ 0
          · rw [if_pos hnumber]
            by_cases hdry : run.dry = true
            · rw [if_pos hdry]
              exact .inl ⟨counted, rfl, rfl, rfl, .inl hdry⟩
            · rw [if_neg hdry]
              cases hrequest : editIssue run.githubToken organization (elem plan.repos index) plan.issueTitle
                  (elem plan.issueBodies y) (plan.issueNumbers index) with
              | error e => exact .inr (.inl ⟨e, counted, rfl, rfl, rfl⟩)
              | ok request =>
                  refine .inr (.inr ⟨_, _, rfl, rfl, ⟨student, index, hstudent, hindex, rfl, rfl⟩, rfl, ?_, ?_, rfl⟩)
                  · rw [Sent.requestFor, if_pos hnumber]
                    exact hrequest
                  · rw [AnnouncePlan.change, if_pos hnumber]
                    rfl
          · rw [if_neg hnumber]
            have hzero : plan.issueNumbers index = 0 := not_not.mp hnumber
            by_cases hdry : run.dry = true
            · rw [if_pos hdry]
              exact .inl ⟨counted, rfl, rfl, rfl, .inl hdry⟩
            · rw [if_neg hdry]
              cases hrequest : createIssue run.githubToken organization (elem plan.repos index) plan.issueTitle
                  (elem plan.issueBodies y) with
              | error e => exact .inr (.inl ⟨e, counted, rfl, rfl, rfl⟩)
              | ok request =>
                  refine .inr (.inr ⟨_, _, rfl, rfl, ⟨student, index, hstudent, hindex, rfl, hzero.symm⟩, rfl,
                    ?_, ?_, rfl⟩)
                  · rw [Sent.requestFor, if_neg (not_not.mpr rfl)]
                    exact hrequest
                  · rw [AnnouncePlan.change, if_neg (not_not.mpr rfl)]
                    rfl

end Row

/-! ## The rows of one run -/

/-- No student has two rows. -/
def DistinctStudents (sheet : Sheet) (studentX : Nat) : Prop :=
  ∀ y y' student student', getValue sheet studentX y = .ok student → getValue sheet studentX y' = .ok student' →
    EqIgnoreCase student student' → y = y'

/-- Students of one repository are one student. -/
theorem eqIgnoreCase_of_repositoryName {title student student' : CString}
    (h : EqIgnoreCase (repositoryName title student) (repositoryName title student')) :
    EqIgnoreCase student student' := by
  unfold EqIgnoreCase repositoryName at h
  simp only [CString.bytes_append, List.map_append] at h
  exact List.append_cancel_left h

/-- A repository that is found has the name that was searched for. -/
theorem findIndexCaseInsensitive_spec {repos : List CString} {name : CString} {index : Nat}
    (h : findIndexCaseInsensitive repos name = some index) :
    index < repos.length ∧ EqIgnoreCase (elem repos index) name := by
  obtain ⟨hindex, hname, -⟩ := List.findIdx?_eq_some_iff_getElem.mp h
  refine ⟨hindex, ?_⟩
  rw [elem, List.getD_eq_getElem _ _ hindex]
  exact compareCaseInsensitive_iff.mp hname

section Rows

variable (title organization : CString) (run : GradeRun) (plan : AnnouncePlan) (github : Github)

/-- A record of a request is of a row of the sheet, and says what the run had formatted and listed for it. -/
structure Sent.Right (sent : Sent) : Prop where
  student : ∃ student, getValue run.sheet plan.studentX sent.row = .ok student ∧
    EqIgnoreCase sent.repo (repositoryName title student)
  body : sent.body = elem plan.issueBodies sent.row
  request : sent.requestFor organization run plan = .ok sent.request
  issueNumber : sent.issueNumber = (github (repoKey sent.repo)).titledNumber plan.issueTitle

/-- What holds in front of row `y`, where `github` is what the run has started from. -/
structure RowsDone (s : Announced) (y : Nat) : Prop where
  row : ∀ sent ∈ s.sent, sent.row < y
  right : ∀ sent ∈ s.sent, sent.Right title organization run plan github
  untouched : ∀ key, (∀ sent ∈ s.sent, repoKey sent.repo = key → sent.issue = none) → s.github key = github key
  settled : ∀ sent ∈ s.sent, ∀ number, sent.issue = some number →
    (s.github (repoKey sent.repo)).titled plan.issueTitle = [⟨number, plan.issueTitle, sent.body⟩] ∧
      (sent.issueNumber = 0 ∨ sent.issueNumber = number.val)

/-- The numbers the run has found are those of what it started from. -/
def Listed : Prop := ∀ index < plan.repos.length,
  plan.issueNumbers index = (github (repoKey (elem plan.repos index))).titledNumber plan.issueTitle

variable {title organization run plan github}

/-- Rows send to different repositories. -/
theorem Sent.Right.repoKey_ne {sent sent' : Sent} (h : sent.Right title organization run plan github)
    (h' : sent'.Right title organization run plan github) (hdistinct : DistinctStudents run.sheet plan.studentX)
    (hrow : sent.row ≠ sent'.row) : repoKey sent.repo ≠ repoKey sent'.repo := by
  intro hkey
  obtain ⟨student, hstudent, hrepo⟩ := h.student
  obtain ⟨student', hstudent', hrepo'⟩ := h'.student
  have hsame : EqIgnoreCase sent.repo sent'.repo := hkey
  -- a repository has one student, and a student one row
  have hnames := hrepo.symm.trans (hsame.trans hrepo')
  exact hrow (hdistinct _ _ _ _ hstudent hstudent' (eqIgnoreCase_of_repositoryName hnames))

/-- The record of a row that sends is right. -/
theorem RowSends.right {s s' : Announced} {y : Nat} {sent : Sent}
    (h : RowSends organization run plan title s s' y sent) (hlisted : Listed plan github) :
    sent.Right title organization run plan github := by
  obtain ⟨student, index, hstudent, hindex, hrepo, hnumber⟩ := h.student
  obtain ⟨hlt, hname⟩ := findIndexCaseInsensitive_spec hindex
  constructor
  case student =>
    refine ⟨student, ?_, ?_⟩
    · rw [h.row]
      exact hstudent
    · rw [hrepo]
      exact hname
  case body => rw [h.body, h.row]
  case request => exact h.request
  case issueNumber => rw [hnumber, hlisted index hlt, hrepo]

/-- The records behind a row that sends. -/
theorem RowSends.mem_iff {s s' : Announced} {y : Nat} {sent : Sent}
    (h : RowSends organization run plan title s s' y sent) (e : Sent) : e ∈ s'.sent ↔ e ∈ s.sent ∨ e = sent := by
  rw [h.sent, List.mem_append, List.mem_singleton]

/-- A row that sends has not sent before, so its repository is as it was listed. -/
theorem RowsDone.fresh {s s' : Announced} {y : Nat} {sent : Sent}
    (h : RowsDone title organization run plan github s y) (hs : RowSends organization run plan title s s' y sent)
    (hright : sent.Right title organization run plan github)
    (hdistinct : DistinctStudents run.sheet plan.studentX) :
    (∀ earlier ∈ s.sent, repoKey earlier.repo ≠ repoKey sent.repo) ∧
      s.github (repoKey sent.repo) = github (repoKey sent.repo) := by
  have hother : ∀ earlier ∈ s.sent, repoKey earlier.repo ≠ repoKey sent.repo := by
    intro earlier hearlier
    apply (h.right earlier hearlier).repoKey_ne hright hdistinct
    have := h.row earlier hearlier
    rw [hs.row]
    omega
  refine ⟨hother, ?_⟩
  apply h.untouched
  exact fun earlier hearlier hkey => absurd hkey (hother earlier hearlier)

/-- **A row that sends keeps the invariant.** The repository has not been sent anything in this run, so it is as it
    was listed. -/
theorem RowsDone.send {s s' : Announced} {y : Nat} {sent : Sent}
    (h : RowsDone title organization run plan github s y) (hs : RowSends organization run plan title s s' y sent)
    (hlisted : Listed plan github) (hdistinct : DistinctStudents run.sheet plan.studentX)
    (hone : ∀ key, ((github key).titled plan.issueTitle).length ≤ 1) :
    RowsDone title organization run plan github s' (y + 1) := by
  have hright := hs.right hlisted
  obtain ⟨hother, hasListed⟩ := h.fresh hs hright hdistinct
  have hrow : ∀ e ∈ s'.sent, e.row < y + 1 := by
    intro e he
    rcases (hs.mem_iff e).mp he with hin | rfl
    · exact Nat.lt_succ_of_lt (h.row e hin)
    · rw [hs.row]
      exact Nat.lt_succ_self y
  have hrights : ∀ e ∈ s'.sent, e.Right title organization run plan github := by
    intro e he
    rcases (hs.mem_iff e).mp he with hin | rfl
    · exact h.right e hin
    · exact hright
  have hearlier : ∀ e ∈ s.sent, e ∈ s'.sent := fun e he => (hs.mem_iff e).mpr (.inl he)
  have hanswer := hs.answer
  rcases Github.answer_cases s.github (run.fate y) sent.repo
      (plan.change (s.github (repoKey sent.repo)) (run.fate y).number sent.issueNumber sent.body)
    with hnone | ⟨tracker, number, hchange, hsome⟩
  · -- the request has failed, and GitHub is as it was
    rw [hnone] at hanswer
    obtain ⟨hgithub, hissue⟩ := Prod.mk.inj hanswer
    refine ⟨hrow, hrights, ?_, ?_⟩
    · intro key hkey
      rw [hgithub]
      exact h.untouched key fun e he => hkey e (hearlier e he)
    · intro e he n hn
      rw [hgithub]
      rcases (hs.mem_iff e).mp he with hin | rfl
      · exact h.settled e hin n hn
      · rw [hissue] at hn
        cases hn
  · -- the request has changed its repository, and no other
    rw [hsome] at hanswer
    obtain ⟨hgithub, hissue⟩ := Prod.mk.inj hanswer
    -- the number that was listed is that of the issue there is now
    rw [hasListed, AnnouncePlan.change, hright.issueNumber] at hchange
    obtain ⟨htitled, hnumber⟩ := Tracker.titled_change (hone _) hchange
    refine ⟨hrow, hrights, ?_, ?_⟩
    · intro key hkey
      have hne : key ≠ repoKey sent.repo := by
        rintro rfl
        have hnone := hkey sent ((hs.mem_iff sent).mpr (.inr rfl)) rfl
        rw [hissue] at hnone
        cases hnone
      rw [hgithub, Function.update_of_ne hne]
      exact h.untouched key fun e he => hkey e (hearlier e he)
    · intro e he n hn
      rw [hgithub]
      rcases (hs.mem_iff e).mp he with hin | rfl
      · rw [Function.update_of_ne (hother e hin)]
        exact h.settled e hin n hn
      · rw [hissue] at hn
        injection hn with hn
        subst hn
        rw [Function.update_self, hright.issueNumber]
        exact ⟨htitled, hnumber⟩

/-- Only GitHub and the records count. -/
theorem RowsDone.congr {s s' : Announced} {y y' : Nat} (h : RowsDone title organization run plan github s y)
    (hgithub : s'.github = s.github) (hsent : s'.sent = s.sent) (hle : y ≤ y') :
    RowsDone title organization run plan github s' y' := by
  refine ⟨?_, ?_, ?_, ?_⟩
  · intro sent hmem
    exact Nat.lt_of_lt_of_le (h.row sent (hsent ▸ hmem)) hle
  · rw [hsent]
    exact h.right
  · rw [hsent, hgithub]
    exact h.untouched
  · rw [hsent, hgithub]
    exact h.settled

/-- Nothing has been sent yet. -/
theorem RowsDone.start : RowsDone title organization run plan github (Announced.start github) 0 := by
  refine ⟨?_, ?_, fun _ _ => rfl, ?_⟩
  · exact fun sent hmem => absurd hmem List.not_mem_nil
  · exact fun sent hmem => absurd hmem List.not_mem_nil
  · exact fun sent hmem => absurd hmem List.not_mem_nil

variable (title organization run plan github) in
/-- **Invariant rule for the loop over the rows**, wherever it ends: what only depends on GitHub and the records, and is
    kept by a row that sends. -/
theorem rows_final (P : Nat → Announced → Prop) (hstart : P 0 (Announced.start github))
    (hcongr : ∀ {s s' y y'}, P y s → s'.github = s.github → s'.sent = s.sent → y ≤ y' → P y' s')
    (hsend : ∀ {s s' y sent}, P y s → RowSends organization run plan title s s' y sent → P (y + 1) s') (n : Nat) :
    ∃ y ≤ n, P y
      (Loops.final ((List.range n).foldlM (announceRow title organization run plan) (Announced.start github))) := by
  apply Loops.foldlM_range_final P hstart
  intro y _ s hs
  rcases announceRow_cases organization run plan title s y with
    ⟨t, hok, hgithub, hsent, -⟩ | ⟨e, t, herror, hgithub, hsent⟩ | ⟨t, sent, hok, hsends⟩
  · constructor
    · intro s' h
      rw [hok] at h
      injection h with h
      exact h ▸ hcongr hs hgithub hsent (Nat.le_succ y)
    · intro e s' h
      rw [hok] at h
      cases h
  · constructor
    · intro s' h
      rw [herror] at h
      cases h
    · intro e' s' h
      rw [herror] at h
      injection h with h
      -- a row that fails has sent nothing: the loop ends in front of it
      obtain ⟨-, rfl⟩ := Prod.mk.inj h
      exact hcongr hs hgithub hsent (Nat.le_refl y)
  · constructor
    · intro s' h
      rw [hok] at h
      injection h with h
      exact h ▸ hsend hs hsends
    · intro e s' h
      rw [hok] at h
      cases h

variable (title organization) in
/-- **The loop over the rows keeps the invariant**, wherever it ends. -/
theorem rowsDone_final (hlisted : Listed plan github) (hdistinct : DistinctStudents run.sheet plan.studentX)
    (hone : ∀ key, ((github key).titled plan.issueTitle).length ≤ 1) (n : Nat) :
    ∃ y ≤ n, RowsDone title organization run plan github
      (Loops.final ((List.range n).foldlM (announceRow title organization run plan) (Announced.start github))) y := by
  apply rows_final title organization run plan github
    (fun y s => RowsDone title organization run plan github s y) RowsDone.start
  · exact fun hs => hs.congr
  · exact fun hs hsends => hs.send hsends hlisted hdistinct hone

variable (title organization) in
/-- **No student is passed over**: a loop that comes to its end has sent a request for every row whose repository is
    listed, unless it was asked not to. -/
theorem rows_send (hdry : run.dry = false) {n : Nat} {s : Announced}
    (hrun : (List.range n).foldlM (announceRow title organization run plan) (Announced.start github) = .ok s)
    {y : Nat} (hy : y < n) {student : CString} {index : Nat}
    (hstudent : getValue run.sheet plan.studentX y = .ok student)
    (hindex : findIndexCaseInsensitive plan.repos (repositoryName title student) = some index) :
    ∃ sent ∈ s.sent, sent.row = y := by
  induction n generalizing s with
  | zero => exact absurd hy (Nat.not_lt_zero y)
  | succ n ih =>
      rw [Loops.foldlM_range_succ] at hrun
      obtain ⟨before, hbefore, hrow⟩ := Loops.bind_eq_ok hrun
      rcases announceRow_cases organization run plan title before n with
        ⟨t, hok, -, hsent, hnothing⟩ | ⟨e, t, herror, -, -⟩ | ⟨t, sent, hok, hsends⟩
      · rw [hok] at hrow
        injection hrow with hrow
        subst hrow
        rcases Nat.lt_or_eq_of_le (Nat.le_of_lt_succ hy) with hlt | rfl
        · rw [hsent]
          exact ih hbefore hlt
        · rcases hnothing with hdry' | ⟨student', hstudent', hnone⟩
          · rw [hdry] at hdry'
            cases hdry'
          · rw [hstudent] at hstudent'
            injection hstudent' with hsame
            rw [← hsame, hindex] at hnone
            cases hnone
      · rw [herror] at hrow
        cases hrow
      · rw [hok] at hrow
        injection hrow with hrow
        subst hrow
        rw [hsends.sent]
        rcases Nat.lt_or_eq_of_le (Nat.le_of_lt_succ hy) with hlt | rfl
        · obtain ⟨earlier, hearlier, hearlierRow⟩ := ih hbefore hlt
          exact ⟨earlier, List.mem_append_left _ hearlier, hearlierRow⟩
        · exact ⟨sent, by simp, hsends.row⟩

end Rows

end Hand2
