import Hand2.Invite.UsersExist

/-!
# `Invite.Students` — `invite_students`

Two loops over the list of usernames. The first crosses off who is a member or invited already, and stops at a
username that does not exist; the second asks GitHub for a membership for every entry that is left, unless there
was such a username. Crossing off is writing a null pointer into the array the second loop reads, so the entries
are optional strings. What comes of each entry depends on that entry alone (`Standing`), which is why the counts
add up.
-/

namespace Hand2

/-- What the first loop leaves. -/
structure Checked where
  /-- `students.elem`, as far as the loop got. -/
  elem : List (Option CString)
  existingCount : Nat
  invitingCount : Nat
  invalidCount : Nat
  deriving DecidableEq

/-- Some string of the array is the student, ignoring case. -/
def listedIn (array : List CString) (student : CString) : Bool :=
  array.any (fun other => compareCaseInsensitive student other)

section Loops

variable (existingStudents existingInvitations : List CString) (exist : Nat → Int)

/-- The first loop, from entry `i`; a `break` leaves the entries behind it as they are. -/
def checkStudents : List CString → Nat → Checked → Checked
  | [],              _, s => s
  | student :: rest, i, s =>
      if listedIn existingStudents student then
        checkStudents rest (i + 1) { s with existingCount := s.existingCount + 1, elem := s.elem ++ [none] }
      else if listedIn existingInvitations student then
        checkStudents rest (i + 1) { s with invitingCount := s.invitingCount + 1, elem := s.elem ++ [none] }
      else if exist i = 0 then
        -- the username is crossed off as well, and the loop left
        { s with invalidCount := s.invalidCount + 1, elem := s.elem ++ none :: rest.map some }
      else checkStudents rest (i + 1) { s with elem := s.elem ++ [some student] }

end Loops

/-- What the second loop has done: the urls of the requests it sent, and its counts. -/
structure Invited where
  requests : List CString
  successCount : Nat
  failureCount : Nat
  deriving DecidableEq

/-- `"https://api.github.com/orgs/%s/teams/%s/memberships/%s"`. -/
def membershipUrl (organization team username : CString) : CString :=
  CString.lit "https://api.github.com/orgs/" ++ organization ++ CString.lit "/teams/" ++ team
    ++ CString.lit "/memberships/" ++ username

section Loops

variable (organization team : CString) (accepted : Nat → Bool)

/-- The second loop; `invite_user_to_team` succeeds for request `n` if `accepted n`. A url that does not fit ends the
    program, with the requests that were sent. -/
def inviteLoop : List (Option CString) → Invited → Invited × Option Fault
  | [],                   s => (s, none)
  | none :: rest,         s => inviteLoop rest s
  | some student :: rest, s =>
      match formatString maxUrlLen (membershipUrl organization team student) with
      | .error fault => (s, some fault)
      | .ok url =>
          if accepted s.requests.length then
            inviteLoop rest { s with requests := s.requests ++ [url], successCount := s.successCount + 1 }
          else inviteLoop rest { s with requests := s.requests ++ [url], failureCount := s.failureCount + 1 }

/-- `invite_students`, from the retrieved lists on: the summary of the first loop, what the second has done, and the
    fault that ended the program, if one did. -/
def inviteStudents (students existingStudents existingInvitations : List CString) (exist : Nat → Int) :
    Checked × Invited × Option Fault :=
  let checked := checkStudents existingStudents existingInvitations exist students 0 ⟨[], 0, 0, 0⟩
  if checked.invalidCount = 0 then (checked, inviteLoop organization team accepted checked.elem ⟨[], 0, 0⟩)
  else (checked, ⟨[], 0, 0⟩, none)

end Loops

/-! ## What comes of an entry -/

section Standing

variable (members pending : List CString)

/-- No member and no pending invitation is the student. -/
def Open (student : CString) : Prop :=
  (∀ m ∈ members, ¬ EqIgnoreCase student m) ∧ ∀ p ∈ pending, ¬ EqIgnoreCase student p

instance (student : CString) : Decidable (Open members pending student) :=
  inferInstanceAs (Decidable ((∀ m ∈ members, ¬ EqIgnoreCase student m) ∧
    ∀ p ∈ pending, ¬ EqIgnoreCase student p))

/-- The student is a member. -/
def IsMember (student : CString) : Prop := ∃ m ∈ members, EqIgnoreCase student m

instance (student : CString) : Decidable (IsMember members student) :=
  inferInstanceAs (Decidable (∃ m ∈ members, EqIgnoreCase student m))

/-- The student is invited, and no member. -/
def IsPending (student : CString) : Prop := ¬ IsMember members student ∧ ∃ p ∈ pending, EqIgnoreCase student p

instance (student : CString) : Decidable (IsPending members pending student) :=
  inferInstanceAs (Decidable (¬ IsMember members student ∧ ∃ p ∈ pending, EqIgnoreCase student p))

theorem listedIn_iff {array : List CString} {student : CString} :
    listedIn array student = true ↔ ∃ other ∈ array, EqIgnoreCase student other := by
  simp [listedIn]

/-- An entry is open, a member or pending, and only one of these. -/
theorem standing_cases (student : CString) :
    (IsMember members student ∧ ¬ IsPending members pending student ∧ ¬ Open members pending student)
    ∨ (¬ IsMember members student ∧ IsPending members pending student ∧ ¬ Open members pending student)
    ∨ (¬ IsMember members student ∧ ¬ IsPending members pending student ∧ Open members pending student) := by
  unfold IsPending Open IsMember
  grind

/-- **The counts of the entries add up.** -/
theorem standing_sum (students : List CString) :
    students.countP (fun s => IsMember members s) + students.countP (fun s => IsPending members pending s)
      + students.countP (fun s => Open members pending s) = students.length := by
  induction students with
  | nil => rfl
  | cons student rest ih =>
      rw [List.countP_cons, List.countP_cons, List.countP_cons, List.length_cons]
      rcases standing_cases members pending student with h | h | h
      all_goals
        simp only [h.1, h.2.1, h.2.2, decide_true, decide_false, if_true, Bool.false_eq_true, if_false]
        omega

end Standing

/-! ## The loops, entry by entry -/

section CheckLoop

variable {members pending : List CString} {exist : Nat → Int}

/-- What the first loop makes of an entry. -/
def mark (members pending : List CString) (student : CString) : Option CString :=
  if Open members pending student then some student else none

/-- The first loop, if every open entry from `i` on exists. -/
theorem checkStudents_valid {students : List CString} {i : Nat} (s : Checked)
    (hexist : ∀ j (hj : j < students.length), Open members pending students[j] → exist (i + j) ≠ 0) :
    checkStudents members pending exist students i s
      = ⟨s.elem ++ students.map (mark members pending),
          s.existingCount + students.countP (fun s => IsMember members s),
          s.invitingCount + students.countP (fun s => IsPending members pending s),
          s.invalidCount⟩ := by
  induction students generalizing i s with
  | nil => simp [checkStudents]
  | cons student rest ih =>
      have hrest : ∀ j (hj : j < rest.length), Open members pending rest[j] → exist (i + 1 + j) ≠ 0 := by
        intro j hj hopen
        rw [Nat.add_assoc, Nat.add_comm 1 j]
        exact hexist (j + 1) (by simpa using hj) hopen
      have hmember : listedIn members student = true ↔ IsMember members student := listedIn_iff
      unfold checkStudents
      rw [List.countP_cons, List.countP_cons]
      rcases standing_cases members pending student with
        ⟨hm, hp, ho⟩ | ⟨hm, hp, ho⟩ | ⟨hm, hp, ho⟩
      · rw [if_pos (hmember.mpr hm), ih _ hrest]
        simp [hm, hp, mark, ho]
        omega
      · rw [if_neg (fun h => hm (hmember.mp h)), if_pos (listedIn_iff.mpr hp.2), ih _ hrest]
        simp [hm, hp, mark, ho]
        omega
      · have hpending : ¬ listedIn pending student = true := fun h => hp ⟨hm, listedIn_iff.mp h⟩
        have hflag : exist i ≠ 0 := hexist 0 (by simp) ho
        rw [if_neg (fun h => hm (hmember.mp h)), if_neg hpending, if_neg hflag, ih _ hrest]
        simp [hm, hp, mark, ho]

/-- The first loop, if some open entry from `i` on does not exist: it is counted once, and the loop is left. -/
theorem checkStudents_invalid {students : List CString} {i : Nat} (s : Checked)
    (hmissing : ∃ j, ∃ hj : j < students.length, Open members pending students[j] ∧ exist (i + j) = 0) :
    (checkStudents members pending exist students i s).invalidCount = s.invalidCount + 1 := by
  induction students generalizing i s with
  | nil =>
      obtain ⟨j, hj, _⟩ := hmissing
      exact absurd hj (Nat.not_lt_zero j)
  | cons student rest ih =>
      -- the entry itself is not the one, unless the loop stops at it
      have hrest : (¬ Open members pending student ∨ exist i ≠ 0) →
          ∃ j, ∃ hj : j < rest.length, Open members pending rest[j] ∧ exist (i + 1 + j) = 0 := by
        intro hpassed
        obtain ⟨j, hj, hopen, hflag⟩ := hmissing
        cases j with
        | zero => exact (hpassed.elim (fun h => h hopen) (fun h => h hflag)).elim
        | succ j =>
            refine ⟨j, by simpa using hj, hopen, ?_⟩
            rwa [Nat.add_assoc, Nat.add_comm 1 j]
      unfold checkStudents
      rcases standing_cases members pending student with
        ⟨hm, hp, ho⟩ | ⟨hm, hp, ho⟩ | ⟨hm, hp, ho⟩
      · rw [if_pos (listedIn_iff.mpr hm)]
        exact ih _ (hrest (.inl ho))
      · rw [if_neg (fun h => hm (listedIn_iff.mp h)), if_pos (listedIn_iff.mpr hp.2)]
        exact ih _ (hrest (.inl ho))
      · have hpending : ¬ listedIn pending student = true := fun h => hp ⟨hm, listedIn_iff.mp h⟩
        rw [if_neg (fun h => hm (listedIn_iff.mp h)), if_neg hpending]
        by_cases hflag : exist i = 0
        · rw [if_pos hflag]
        · rw [if_neg hflag]
          exact ih _ (hrest (.inr hflag))

/-- What is left is the open entries, in order. -/
theorem filterMap_mark (students : List CString) :
    (students.map (mark members pending)).filterMap id = students.filter (fun s => Open members pending s) := by
  induction students with
  | nil => rfl
  | cons student rest ih =>
      by_cases ho : Open members pending student
      · simp [mark, ho, ← ih]
      · simp [mark, ho, ← ih]

end CheckLoop

section InviteLoop

variable (organization team : CString) (accepted : Nat → Bool)

/-- The url of a student fits its buffer. -/
def MembershipFits (student : CString) : Prop :=
  (membershipUrl organization team student).length < maxUrlLen

/-- The second loop, if every url fits: one request for each entry that is left, in order. -/
theorem inviteLoop_fits (entries : List (Option CString)) (s : Invited)
    (hfit : ∀ student ∈ entries.filterMap id, MembershipFits organization team student) :
    ∃ out, inviteLoop organization team accepted entries s = (out, none) ∧
      out.requests = s.requests ++ (entries.filterMap id).map (membershipUrl organization team) ∧
      out.successCount + out.failureCount = s.successCount + s.failureCount + (entries.filterMap id).length := by
  induction entries generalizing s with
  | nil => exact ⟨s, rfl, by simp, by simp⟩
  | cons entry rest ih =>
      cases entry with
      | none => exact ih s hfit
      | some student =>
          have hrest : ∀ student ∈ rest.filterMap id, MembershipFits organization team student :=
            fun other hother => hfit other (List.mem_cons_of_mem _ hother)
          have hurl := formatString_ok (hfit student List.mem_cons_self)
          rw [inviteLoop, hurl]
          dsimp only
          by_cases haccept : accepted s.requests.length
          · obtain ⟨out, hrun, hrequests, hcount⟩ := ih
              ⟨s.requests ++ [membershipUrl organization team student], s.successCount + 1, s.failureCount⟩ hrest
            rw [if_pos haccept]
            refine ⟨out, hrun, by simp [hrequests], ?_⟩
            rw [hcount, List.filterMap_cons_some (f := id) rfl, List.length_cons]
            dsimp only
            omega
          · obtain ⟨out, hrun, hrequests, hcount⟩ := ih
              ⟨s.requests ++ [membershipUrl organization team student], s.successCount, s.failureCount + 1⟩ hrest
            rw [if_neg haccept]
            refine ⟨out, hrun, by simp [hrequests], ?_⟩
            rw [hcount, List.filterMap_cons_some (f := id) rfl, List.length_cons]
            dsimp only
            omega

/-- The second loop up to the first url that does not fit, where the program ends. -/
theorem inviteLoop_misfit (entries : List (Option CString)) (s : Invited) {before after : List CString}
    {student : CString} (hentries : entries.filterMap id = before ++ student :: after)
    (hbefore : ∀ other ∈ before, MembershipFits organization team other)
    (hlong : ¬ MembershipFits organization team student) :
    ∃ out, inviteLoop organization team accepted entries s = (out, some .exit) ∧
      out.requests = s.requests ++ before.map (membershipUrl organization team) := by
  induction entries generalizing s before with
  | nil => exact absurd hentries (by simp)
  | cons entry rest ih =>
      cases entry with
      | none => exact ih s hentries hbefore
      | some first =>
          rw [List.filterMap_cons_some (f := id) rfl] at hentries
          cases before with
          | nil =>
              injection hentries with hfirst _
              subst hfirst
              rw [inviteLoop, formatString_exit (Nat.not_lt.mp hlong)]
              exact ⟨s, rfl, by simp⟩
          | cons other before =>
              injection hentries with hfirst hrest
              subst hfirst
              have hurl := formatString_ok (hbefore first List.mem_cons_self)
              have hbefore' : ∀ other ∈ before, MembershipFits organization team other :=
                fun other hother => hbefore other (List.mem_cons_of_mem _ hother)
              rw [inviteLoop, hurl]
              dsimp only
              split
              all_goals
                obtain ⟨out, hrun, hrequests⟩ := ih ⟨s.requests ++ [membershipUrl organization team first], _, _⟩
                  hrest hbefore'
                exact ⟨out, hrun, by simp [hrequests]⟩

end InviteLoop

/-! ## All or nothing -/

/-- **Inviting is all or nothing, and accounts for every entry.** If every open entry exists and its url fits, every
    open entry gets one request, in order, no other does, and each entry is counted once; a url that does not fit ends
    the program behind the requests before it. If some open entry does not exist, there is no request. -/
theorem inviteStudents_all_or_nothing (organization team : CString) (accepted : Nat → Bool)
    (students members pending : List CString) (exist : Nat → Int) :
    ((∀ i (hi : i < students.length), Open members pending students[i] → exist i ≠ 0) →
      ((∀ student ∈ students, Open members pending student → MembershipFits organization team student) →
        ∃ checked invited,
          inviteStudents organization team accepted students members pending exist = (checked, invited, none) ∧
          invited.requests = (students.filter (fun s => Open members pending s)).map (membershipUrl organization team) ∧
          checked.existingCount = students.countP (fun s => IsMember members s) ∧
          checked.invitingCount = students.countP (fun s => IsPending members pending s) ∧
          invited.successCount + invited.failureCount + checked.existingCount + checked.invitingCount
            = students.length) ∧
      (∀ before student after, students.filter (fun s => Open members pending s) = before ++ student :: after →
        (∀ other ∈ before, MembershipFits organization team other) → ¬ MembershipFits organization team student →
        ∃ checked invited,
          inviteStudents organization team accepted students members pending exist = (checked, invited, some .exit) ∧
          invited.requests = before.map (membershipUrl organization team))) ∧
    ((∃ i, ∃ hi : i < students.length, Open members pending students[i] ∧ exist i = 0) →
      ∃ checked, inviteStudents organization team accepted students members pending exist
        = (checked, ⟨[], 0, 0⟩, none)) := by
  refine ⟨fun hexist => ?_, fun hmissing => ?_⟩
  · have hchecked := checkStudents_valid (i := 0) ⟨[], 0, 0, 0⟩ (by simpa using hexist)
    unfold inviteStudents
    rw [hchecked]
    simp only [if_true, List.nil_append, Nat.zero_add]
    constructor
    · intro hfit
      obtain ⟨out, hrun, hrequests, hcount⟩ := inviteLoop_fits organization team accepted
        (students.map (mark members pending)) ⟨[], 0, 0⟩ (by
          intro student hstudent
          rw [filterMap_mark, List.mem_filter] at hstudent
          exact hfit student hstudent.1 (by simpa using hstudent.2))
      rw [filterMap_mark] at hrequests hcount
      refine ⟨_, out, by rw [hrun], hrequests, rfl, rfl, ?_⟩
      rw [← List.countP_eq_length_filter] at hcount
      -- one request for each open entry, so its two counts sum up to the open entries
      have hsum := standing_sum members pending students
      dsimp only at hcount ⊢
      omega
    · intro before student after hsplit hbefore hlong
      obtain ⟨out, hrun, hrequests⟩ := inviteLoop_misfit organization team accepted
        (students.map (mark members pending)) ⟨[], 0, 0⟩ ((filterMap_mark students).trans hsplit) hbefore
        hlong
      exact ⟨_, out, by rw [hrun], hrequests⟩
  · have hinvalid := checkStudents_invalid (i := 0) ⟨[], 0, 0, 0⟩ (by simpa using hmissing)
    unfold inviteStudents
    dsimp only
    rw [if_neg (by rw [hinvalid]; decide)]
    exact ⟨_, rfl⟩

end Hand2
