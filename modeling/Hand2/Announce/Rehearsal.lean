import Hand2.Announce.Rows

/-!
# `Announce.Rehearsal` — the dry run of `announce_grade`

`--dry` promises a trial run without remote changes. The loop over the rows looks at the flag in two places, both
behind the counter, so a dry run is a rehearsal: it changes nothing, and counts what the real run is going to send. What
it cannot tell is that the url of a request does not fit its buffer, where the real run ends with the program.
-/

namespace Hand2

/-- The run with `--dry`, and without. -/
def GradeRun.rehearsal (run : GradeRun) : GradeRun := { run with dry := true }

def GradeRun.performance (run : GradeRun) : GradeRun := { run with dry := false }

/-- The two runs are level: both have counted the same rows, and the real one has sent a request for each. -/
structure Level (s d : Announced) : Prop where
  count : d.announcementCount = s.announcementCount
  sent : s.sent.length = s.announcementCount

/-- The real run has ended over a request that did not fit, after the row had been counted. -/
structure Misfit (s : Announced) (dryCount : Nat) : Prop where
  unsent : s.sent.length + 1 = s.announcementCount
  counted : s.announcementCount ≤ dryCount

/-- Both have counted another row, and the real run has sent its request, or cannot make it. -/
theorem Level.send {s d : Announced} (h : Level s d) (fate : RequestFate) (y : Nat) (repo : CString)
    (issueNumber : Int) (body : CString) (request : IssueRequest) (change : Option (Tracker × IssueNumber)) :
    Level (({ s with announcementCount := s.announcementCount + 1 } : Announced).send fate y repo issueNumber body
      request change) { d with announcementCount := d.announcementCount + 1 } where
  count := congrArg (· + 1) h.count
  sent := by simp [Announced.send, h.sent]

theorem Level.misfit {s d : Announced} (h : Level s d) :
    Misfit { s with announcementCount := s.announcementCount + 1 } (d.announcementCount + 1) where
  unsent := congrArg (· + 1) h.sent
  counted := Nat.le_of_eq (congrArg (· + 1) h.count.symm)

/-- What a dry run does to the rows: nothing but counting. -/
structure Counted (d d' : Announced) : Prop where
  github : d'.github = d.github
  sent : d'.sent = d.sent
  failureCount : d'.failureCount = d.failureCount
  announcementCount : d.announcementCount ≤ d'.announcementCount

theorem Counted.refl (d : Announced) : Counted d d := ⟨rfl, rfl, rfl, Nat.le_refl _⟩

theorem Counted.trans {d d' d'' : Announced} (h : Counted d d') (h' : Counted d' d'') : Counted d d'' where
  github := h'.github.trans h.github
  sent := h'.sent.trans h.sent
  failureCount := h'.failureCount.trans h.failureCount
  announcementCount := Nat.le_trans h.announcementCount h'.announcementCount

theorem eq_exit_of_formatString {size : Nat} {s : CString} {e : Fault} (h : formatString size s = .error e) :
    e = .exit := by
  by_cases hfits : s.length < size
  · rw [formatString_ok hfits] at h
    cases h
  · rw [formatString_exit (Nat.not_lt.mp hfits)] at h
    exact (Except.error.inj h).symm

/-- A request that cannot be made ends the program. -/
theorem eq_exit_of_postRequest {text githubToken postType postData : CString} {e : Fault}
    (h : postRequest text githubToken postType postData = .error e) : e = .exit := by
  unfold postRequest at h
  cases hurl : formatString maxUrlLen text with
  | error e' =>
      rw [hurl] at h
      obtain rfl : e' = e := Except.error.inj h
      exact eq_exit_of_formatString hurl
  | ok url =>
      rw [hurl] at h
      cases hheader : formatString maxRestHeaderLen (githubHeader githubToken) with
      | error e' =>
          rw [hheader] at h
          obtain rfl : e' = e := Except.error.inj h
          exact eq_exit_of_formatString hheader
      | ok header =>
          rw [hheader] at h
          cases h

section Rows

variable (title organization : CString) (run : GradeRun) (plan : AnnouncePlan)

/-- A row of a dry run sends nothing. -/
theorem announceRow_dry (d : Announced) (y : Nat) :
    (∃ d', announceRow title organization run.rehearsal plan d y = .ok d' ∧ Counted d d') ∨
    ∃ e, announceRow title organization run.rehearsal plan d y = .error (e, d) := by
  unfold announceRow
  have hsheet : run.rehearsal.sheet = run.sheet := rfl
  rw [hsheet]
  cases getValue run.sheet plan.studentX y with
  | error e => exact .inr ⟨e, rfl⟩
  | ok student =>
      simp only [failingIn, Bind.bind, Except.bind]
      cases formatString 256 (repositoryName title student) with
      | error e => exact .inr ⟨e, rfl⟩
      | ok reqRepo =>
          dsimp only
          cases findIndexCaseInsensitive plan.repos reqRepo with
          | none => exact .inl ⟨d, rfl, .refl d⟩
          | some index =>
              have hdry : run.rehearsal.dry = true := rfl
              dsimp only
              rw [if_pos hdry, if_pos hdry, ite_self]
              exact .inl ⟨_, rfl, rfl, rfl, rfl, Nat.le_succ _⟩

/-- A row of both runs. -/
theorem announceRow_level {s d : Announced} (h : Level s d) (y : Nat) :
    (∃ s' d', announceRow title organization run.performance plan s y = .ok s' ∧
      announceRow title organization run.rehearsal plan d y = .ok d' ∧ Level s' d') ∨
    (∃ e, announceRow title organization run.performance plan s y = .error (e, s) ∧
      announceRow title organization run.rehearsal plan d y = .error (e, d)) ∨
    ∃ s' d', announceRow title organization run.performance plan s y = .error (.exit, s') ∧
      announceRow title organization run.rehearsal plan d y = .ok d' ∧ Misfit s' d'.announcementCount := by
  unfold announceRow
  have hsheet : run.rehearsal.sheet = run.sheet ∧ run.performance.sheet = run.sheet := ⟨rfl, rfl⟩
  rw [hsheet.1, hsheet.2]
  cases getValue run.sheet plan.studentX y with
  | error e => exact .inr (.inl ⟨e, rfl, rfl⟩)
  | ok student =>
      simp only [failingIn, Bind.bind, Except.bind]
      cases formatString 256 (repositoryName title student) with
      | error e => exact .inr (.inl ⟨e, rfl, rfl⟩)
      | ok reqRepo =>
          dsimp only
          cases findIndexCaseInsensitive plan.repos reqRepo with
          | none => exact .inl ⟨s, d, rfl, rfl, h⟩
          | some index =>
              have hdry : run.rehearsal.dry = true := rfl
              have hreal : ¬ run.performance.dry = true := by simp [GradeRun.performance]
              have htoken : run.performance.githubToken = run.githubToken := rfl
              dsimp only
              rw [if_pos hdry, if_pos hdry, ite_self, if_neg hreal, if_neg hreal, htoken]
              by_cases hnumber : plan.issueNumbers index ≠ 0
              · rw [if_pos hnumber]
                cases hrequest : editIssue run.githubToken organization (elem plan.repos index) plan.issueTitle
                    (elem plan.issueBodies y) (plan.issueNumbers index) with
                | error e =>
                    obtain rfl := eq_exit_of_postRequest hrequest
                    exact .inr (.inr ⟨_, _, rfl, rfl, h.misfit⟩)
                | ok request => exact .inl ⟨_, _, rfl, rfl, h.send ..⟩
              · rw [if_neg hnumber]
                cases hrequest : createIssue run.githubToken organization (elem plan.repos index) plan.issueTitle
                    (elem plan.issueBodies y) with
                | error e =>
                    obtain rfl := eq_exit_of_postRequest hrequest
                    exact .inr (.inr ⟨_, _, rfl, rfl, h.misfit⟩)
                | ok request => exact .inl ⟨_, _, rfl, rfl, h.send ..⟩

theorem foldlM_dry (rows : List Nat) (d : Announced) :
    Counted d (Loops.final (rows.foldlM (announceRow title organization run.rehearsal plan) d)) := by
  induction rows generalizing d with
  | nil => exact .refl d
  | cons y rows ih =>
      rw [List.foldlM_cons]
      rcases announceRow_dry title organization run plan d y with ⟨d', hrow, hcounted⟩ | ⟨e, hrow⟩
      · rw [hrow]
        exact hcounted.trans (ih d')
      · rw [hrow]
        exact .refl d

/-- **Both loops**, row by row. -/
theorem foldlM_level (rows : List Nat) {s d : Announced} (h : Level s d) :
    (∃ s' d', rows.foldlM (announceRow title organization run.performance plan) s = .ok s' ∧
      rows.foldlM (announceRow title organization run.rehearsal plan) d = .ok d' ∧ Level s' d') ∨
    (∃ e s' d', rows.foldlM (announceRow title organization run.performance plan) s = .error (e, s') ∧
      rows.foldlM (announceRow title organization run.rehearsal plan) d = .error (e, d') ∧ Level s' d') ∨
    ∃ s', rows.foldlM (announceRow title organization run.performance plan) s = .error (.exit, s') ∧
      Misfit s'
        (Loops.final (rows.foldlM (announceRow title organization run.rehearsal plan) d)).announcementCount := by
  induction rows generalizing s d with
  | nil => exact .inl ⟨s, d, rfl, rfl, h⟩
  | cons y rows ih =>
      rw [List.foldlM_cons, List.foldlM_cons]
      rcases announceRow_level title organization run plan h y with
        ⟨s', d', hreal, hdry, h'⟩ | ⟨e, hreal, hdry⟩ | ⟨s', d', hreal, hdry, hmisfit⟩
      · rw [hreal, hdry]
        exact ih h'
      · rw [hreal, hdry]
        exact .inr (.inl ⟨e, s, d, rfl, rfl, h⟩)
      · rw [hreal, hdry]
        have hlater := (foldlM_dry title organization run plan rows d').announcementCount
        exact .inr (.inr ⟨s', rfl, hmisfit.unsent, Nat.le_trans hmisfit.counted hlater⟩)

end Rows

/-- **A dry run is a rehearsal.** It leaves GitHub as it is and sends nothing. If the real run ends, so does the dry
    one, and it has counted exactly the requests that the real one sends. If the dry run ends, so does the real one, or
    it ends the program over a request that does not fit, not having sent more than was counted. -/
theorem dry_run_rehearses (title organization : CString) (run : GradeRun) (github : Github) :
    ((afterAnnouncing title organization run.rehearsal github).github = github ∧
      (afterAnnouncing title organization run.rehearsal github).sent = [] ∧
      (afterAnnouncing title organization run.rehearsal github).failureCount = 0) ∧
    (∀ s, announceGrade title organization run.performance github = .ok s →
      ∃ d, announceGrade title organization run.rehearsal github = .ok d ∧
        d.announcementCount = s.announcementCount ∧ s.sent.length = s.announcementCount) ∧
    (∀ d, announceGrade title organization run.rehearsal github = .ok d →
      (∃ s, announceGrade title organization run.performance github = .ok s) ∨
      ∃ s, announceGrade title organization run.performance github = .error (.exit, s) ∧
        s.sent.length < d.announcementCount) := by
  have hplan : planAnnouncement title organization run.rehearsal = planAnnouncement title organization run ∧
      planAnnouncement title organization run.performance = planAnnouncement title organization run := ⟨rfl, rfl⟩
  have hheight : run.rehearsal.sheet.height = run.sheet.height ∧
      run.performance.sheet.height = run.sheet.height := ⟨rfl, rfl⟩
  unfold afterAnnouncing announceGrade
  rw [hplan.1, hplan.2, hheight.1, hheight.2]
  cases planAnnouncement title organization run with
  | error e => exact ⟨⟨rfl, rfl, rfl⟩, (fun s hs => by cases hs), fun d hd => by cases hd⟩
  | ok plan =>
      cases plan with
      | none =>
          refine ⟨⟨rfl, rfl, rfl⟩, fun s hs => ⟨_, rfl, ?_⟩, fun d _ => .inl ⟨_, rfl⟩⟩
          obtain rfl : Announced.start github = s := Except.ok.inj hs
          exact ⟨rfl, rfl⟩
      | some plan =>
          show (_ ∧ _ ∧ _) ∧ _
          have hcounted := foldlM_dry title organization run plan (List.range run.sheet.height) (Announced.start github)
          have hstart : Level (Announced.start github) (Announced.start github) := ⟨rfl, rfl⟩
          refine ⟨⟨hcounted.github, hcounted.sent, hcounted.failureCount⟩, ?_⟩
          simp only [failingIn, Loops.ok_bind]
          rcases foldlM_level title organization run plan (List.range run.sheet.height) hstart with
            ⟨s', d', hreal, hdry, hlevel⟩ | ⟨e, s', d', hreal, hdry, hlevel⟩ | ⟨s', hreal, hmisfit⟩
          · rw [hreal, hdry]
            refine ⟨fun s hs => ⟨d', rfl, ?_⟩, fun d _ => .inl ⟨s', rfl⟩⟩
            obtain rfl : s' = s := Except.ok.inj hs
            exact ⟨hlevel.count, hlevel.sent⟩
          · rw [hreal, hdry]
            exact ⟨(fun s hs => by cases hs), fun d hd => by cases hd⟩
          · rw [hreal]
            refine ⟨(fun s hs => by cases hs), fun d hd => .inr ⟨s', rfl, ?_⟩⟩
            rw [hd] at hmisfit
            have hunsent := hmisfit.unsent
            have hcount : s'.announcementCount ≤ d.announcementCount := hmisfit.counted
            omega

end Hand2
