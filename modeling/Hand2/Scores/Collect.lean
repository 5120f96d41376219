import Hand2.Deadline.Cutoff
import Hand2.Hash
import Hand2.Sheet

/-!
# `Scores.Collect` — `collect_homework`, from the sheet on

Everything retrieved from the network is an argument here: the sheet, and the arrays `repos`, `hash` and
`push_time`, which are indexed alike. A row of the sheet finds its repository by name and writes its line of
the penalty file. What the loop writes is its state: the file, the table of late submissions and the two
counters of the summary.
-/

namespace Hand2

/-- A row of the table of late submissions. -/
structure LateSubmission where
  number : Nat
  delay : Int
  pushTime : Int
  repository : CString
  hash : GitCommitHash
  deriving DecidableEq

/-- What `collect_homework` has written. -/
structure Collected where
  out : List UInt8
  submissionCount : Nat
  lateSubmissionCount : Nat
  lateSubmissions : List LateSubmission
  deriving DecidableEq

/-- Before the first row. -/
def Collected.start : Collected := ⟨[], 0, 0, []⟩

/-- The byte `%`. -/
def percent : UInt8 := 37

/-- The name a student's repository has, ignoring case: `"%s-%s"`. -/
def repositoryName (title student : CString) : CString := title ++ CString.lit "-" ++ student

section Rows

variable (title : CString) (deadline penaltyPerDay isWeekendsOneDay : Int) (onlyRepo : Bool)

/-- A row whose repository is found: the counters, the table and `delay`. -/
def countSubmission (s : Collected) (repository : CString) (hash : GitCommitHash) (pushTime : Int) :
    Except Fault (Collected × Int) :=
  let s := { s with submissionCount := s.submissionCount + 1 }
  if pushTime > deadline then do
    let delay ← calculateLateSubmissionDay deadline pushTime isWeekendsOneDay
    let number := s.lateSubmissionCount + 1
    .ok ({ s with
            lateSubmissionCount := number
            lateSubmissions := s.lateSubmissions ++ [⟨number, delay, pushTime, repository, hash⟩] }, delay)
  else .ok (s, 0)

/-- `"%d%%\n"` of what is left after the penalty. -/
def penaltyLine (delay : Int) : List UInt8 :=
  decimal (max (cInt (100 - cInt (penaltyPerDay * delay))) 0) ++ [percent, newline]

/-- The body of the loop over the rows. -/
def collectRow (repos : List CString) (hash : List GitCommitHash) (pushTime : List Int) (sheet : Sheet)
    (studentX : Nat) (s : Collected) (y : Nat) : Except Fault Collected := do
  let student ← getValue sheet studentX y
  let reqRepo ← formatString 256 (repositoryName title student)
  match findIndexCaseInsensitive repos reqRepo with
  | none => .ok (if onlyRepo then s else { s with out := s.out ++ penaltyLine penaltyPerDay 0 })
  | some index => do
      let counted ← countSubmission deadline isWeekendsOneDay s (repos.getD index CString.empty)
        (hash.getD index GitCommitHash.zero) (pushTime.getD index 0)
      .ok { counted.1 with out := counted.1.out ++ penaltyLine penaltyPerDay counted.2 }

/-- `collect_homework`: an empty sheet or one without the label writes an error and leaves the file empty. -/
def collectHomework (repos : List CString) (hash : List GitCommitHash) (pushTime : List Int) (sheet : Sheet)
    (studentLabel : CString) : Except Fault Collected :=
  if sheet.width > 0 ∧ sheet.height > 0 then
    match findLabel sheet studentLabel with
    | some studentX =>
        (List.range sheet.height).foldlM
          (collectRow title deadline penaltyPerDay isWeekendsOneDay onlyRepo repos hash pushTime sheet studentX)
          Collected.start
    | none => .ok Collected.start
  else .ok Collected.start

end Rows

/-! ## Ranges -/

/-- No `int` overflows when a push at that time is charged. -/
def PenaltyInRange (deadline penaltyPerDay isWeekendsOneDay pushTime : Int) : Prop :=
  LateInRange deadline pushTime ∧ ∀ late,
    calculateLateSubmissionDay deadline pushTime isWeekendsOneDay = .ok late →
      -2147483547 ≤ penaltyPerDay * late ∧ penaltyPerDay * late ≤ intMax

/-- A penalty in range is the one the formula says. -/
theorem penaltyLine_eq {penaltyPerDay delay : Int} (h0 : -2147483547 ≤ penaltyPerDay * delay)
    (h1 : penaltyPerDay * delay ≤ intMax) :
    penaltyLine penaltyPerDay delay = decimal (max (100 - penaltyPerDay * delay) 0) ++ [percent, newline] := by
  unfold intMax at h1
  unfold penaltyLine
  have hproduct : cInt (penaltyPerDay * delay) = penaltyPerDay * delay := cInt_eq (by omega) (by unfold intMax; omega)
  rw [hproduct, cInt_eq (by omega) (by unfold intMax; omega)]

/-- **What a submission in range is charged**, be it late or not. -/
theorem countSubmission_eq {deadline penaltyPerDay isWeekendsOneDay pushTime : Int} (s : Collected)
    (repository : CString) (hash : GitCommitHash)
    (h : PenaltyInRange deadline penaltyPerDay isWeekendsOneDay pushTime) :
    ∃ s' late, countSubmission deadline isWeekendsOneDay s repository hash pushTime = .ok (s', late) ∧
      s'.out = s.out ∧ calculateLateSubmissionDay deadline pushTime isWeekendsOneDay = .ok late := by
  unfold countSubmission
  by_cases hlate : pushTime > deadline
  · have hcharge := calculateLateSubmissionDay_eq (h.1.fits isWeekendsOneDay)
    rw [if_pos hlate, hcharge]
    exact ⟨_, _, rfl, rfl, rfl⟩
  · rw [if_neg hlate]
    refine ⟨_, _, rfl, rfl, ?_⟩
    unfold calculateLateSubmissionDay
    rw [if_neg hlate]

end Hand2
