import Hand2.Invite.Students
import Hand2.Library.Runs

/-!
# `Invite.Team` — inviting while the team changes

`invite_students` asks for the members of the team, then for its invitations, and only then invites. Meanwhile students
accept invitations, and the command is run again and again. Here GitHub's side of the team is a state of its own, every
request of the program is one event, and what students do may come in between any two of them.

A listing is one request for each page, and ends at the first page that is empty or fails. A page holds some of those
who are there when it is answered, so the list that is retrieved may miss somebody: where a page fails, and where
members leave and the rest moves up. And the two listings are not taken at one moment: a student who accepts while the
second is retrieved is in neither. These are the only ways in which somebody who is in the team already is invited
(`never_invited_twice`). No student is lost: after a run that nobody refuses, all of the file are in the team or
invited, whatever the listings miss (`everyone_invited`).
-/

namespace Hand2

open Machine

/-- The team, as GitHub keeps it: logins. -/
structure Roster where
  members : List CString
  pending : List CString

/-- The student is in the team, or invited. -/
def Roster.Knows (roster : Roster) (student : CString) : Prop := ¬ Open roster.members roster.pending student

instance (roster : Roster) (student : CString) : Decidable (roster.Knows student) :=
  inferInstanceAs (Decidable (¬ Open roster.members roster.pending student))

/-- How GitHub answers a request for a membership: the login is in the team at once, or invited. -/
inductive MembershipAnswer where
  | refused
  | joined (login : CString)
  | invited (login : CString)

/-- The team behind an answer. Somebody who is known stays as they are. -/
def Roster.answer (roster : Roster) (student : CString) : MembershipAnswer → Option Roster
  | .refused       => some roster
  | .joined login  =>
      if EqIgnoreCase student login then
        some (if roster.Knows student then roster else { roster with members := roster.members ++ [login] })
      else none
  | .invited login =>
      if EqIgnoreCase student login then
        some (if roster.Knows student then roster else { roster with pending := roster.pending ++ [login] })
      else none

/-- Where `invite_students` is. -/
inductive InvitePhase where
  /-- Not running. -/
  | idle
  /-- In `retrieve_team_members`, with the members of the pages so far. -/
  | listingMembers (students existingStudents : List CString)
  /-- In `retrieve_existing_invitations`, with the invitations of the pages so far. -/
  | listingInvitations (students existingStudents existingInvitations : List CString)
  /-- In the second loop, with these entries to go. -/
  | inviting (entries : List (Option CString))

structure TeamState where
  roster : Roster
  phase : InvitePhase

inductive TeamEvent where
  /-- The file is read, and `retrieve_team_members` is called. -/
  | retrieveTeamMembers (students : List CString)
  /-- A page of members is answered. -/
  | memberPage (logins : List CString)
  /-- `retrieve_team_members` returns, and `retrieve_existing_invitations` is called. -/
  | retrieveExistingInvitations
  /-- A page of invitations is answered. -/
  | invitationPage (logins : List CString)
  /-- `retrieve_existing_invitations` returns; `github_users_exist` and the first loop. -/
  | checkStudents (exist : Nat → Int)
  /-- An entry that was crossed off. -/
  | skip
  /-- `invite_user_to_team`. -/
  | inviteUserToTeam (student : CString) (answer : MembershipAnswer)
  /-- The url of an entry does not fit, which ends the program. -/
  | exit
  /-- The function returns. -/
  | finish
  /-- A student accepts. -/
  | accept (login : CString)
  /-- A student leaves the team. -/
  | leave (login : CString)
  /-- An invitation expires. -/
  | expire (login : CString)

section Team

variable (organization team : CString)

instance (student : CString) : Decidable (MembershipFits organization team student) :=
  inferInstanceAs (Decidable ((membershipUrl organization team student).length < maxUrlLen))

/-- One event. -/
def teamStep (s : TeamState) : TeamEvent → Option TeamState
  | .retrieveTeamMembers students =>
      match s.phase with
      | .idle => if students = [] then none else some { s with phase := .listingMembers students [] }
      | _     => none
  | .memberPage logins =>
      match s.phase with
      | .listingMembers students existingStudents =>
          if logins ⊆ s.roster.members then
            some { s with phase := .listingMembers students (existingStudents ++ logins) }
          else none
      | _ => none
  | .retrieveExistingInvitations =>
      match s.phase with
      | .listingMembers students existingStudents =>
          some { s with phase := .listingInvitations students existingStudents [] }
      | _ => none
  | .invitationPage logins =>
      match s.phase with
      | .listingInvitations students existingStudents existingInvitations =>
          if logins ⊆ s.roster.pending then
            some { s with phase := .listingInvitations students existingStudents (existingInvitations ++ logins) }
          else none
      | _ => none
  | .checkStudents exist =>
      match s.phase with
      | .listingInvitations students existingStudents existingInvitations =>
          let checked := Hand2.checkStudents existingStudents existingInvitations exist students 0 ⟨[], 0, 0, 0⟩
          if checked.invalidCount = 0 then some { s with phase := .inviting checked.elem }
          else some { s with phase := .idle }
      | _ => none
  | .skip =>
      match s.phase with
      | .inviting (none :: entries) => some { s with phase := .inviting entries }
      | _                           => none
  | .inviteUserToTeam student answer =>
      match s.phase with
      | .inviting (some student' :: entries) =>
          if student' = student ∧ MembershipFits organization team student then
            (s.roster.answer student answer).map fun roster => ⟨roster, .inviting entries⟩
          else none
      | _ => none
  | .exit =>
      match s.phase with
      | .inviting (some student :: _) =>
          if MembershipFits organization team student then none else some { s with phase := .idle }
      | _ => none
  | .finish =>
      match s.phase with
      | .inviting [] => some { s with phase := .idle }
      | _            => none
  | .accept login =>
      if login ∈ s.roster.pending then
        some { s with roster := ⟨s.roster.members ++ [login], s.roster.pending.erase login⟩ }
      else none
  | .leave login  => some { s with roster := { s.roster with members := s.roster.members.erase login } }
  | .expire login => some { s with roster := { s.roster with pending := s.roster.pending.erase login } }

/-- What an event can do. -/
inductive TeamStep : TeamState → TeamEvent → TeamState → Prop where
  | retrieveTeamMembers {roster students} (h : students ≠ []) :
      TeamStep ⟨roster, .idle⟩ (.retrieveTeamMembers students) ⟨roster, .listingMembers students []⟩
  | memberPage {roster : Roster} {students existingStudents logins} (h : logins ⊆ roster.members) :
      TeamStep ⟨roster, .listingMembers students existingStudents⟩ (.memberPage logins)
        ⟨roster, .listingMembers students (existingStudents ++ logins)⟩
  | retrieveExistingInvitations {roster students existingStudents} :
      TeamStep ⟨roster, .listingMembers students existingStudents⟩ .retrieveExistingInvitations
        ⟨roster, .listingInvitations students existingStudents []⟩
  | invitationPage {roster : Roster} {students existingStudents existingInvitations logins}
      (h : logins ⊆ roster.pending) :
      TeamStep ⟨roster, .listingInvitations students existingStudents existingInvitations⟩ (.invitationPage logins)
        ⟨roster, .listingInvitations students existingStudents (existingInvitations ++ logins)⟩
  | checked {roster students existingStudents existingInvitations exist}
      (h : (checkStudents existingStudents existingInvitations exist students 0 ⟨[], 0, 0, 0⟩).invalidCount = 0) :
      TeamStep ⟨roster, .listingInvitations students existingStudents existingInvitations⟩ (.checkStudents exist)
        ⟨roster, .inviting (checkStudents existingStudents existingInvitations exist students 0 ⟨[], 0, 0, 0⟩).elem⟩
  | aborted {roster students existingStudents existingInvitations exist} :
      TeamStep ⟨roster, .listingInvitations students existingStudents existingInvitations⟩ (.checkStudents exist)
        ⟨roster, .idle⟩
  | skip {roster entries} : TeamStep ⟨roster, .inviting (none :: entries)⟩ .skip ⟨roster, .inviting entries⟩
  | inviteUserToTeam {roster roster' : Roster} {student answer entries}
      (hfits : MembershipFits organization team student) (h : roster.answer student answer = some roster') :
      TeamStep ⟨roster, .inviting (some student :: entries)⟩ (.inviteUserToTeam student answer)
        ⟨roster', .inviting entries⟩
  | exit {roster student entries} : TeamStep ⟨roster, .inviting (some student :: entries)⟩ .exit ⟨roster, .idle⟩
  | finish {roster} : TeamStep ⟨roster, .inviting []⟩ .finish ⟨roster, .idle⟩
  | accept {roster : Roster} {phase login} (h : login ∈ roster.pending) :
      TeamStep ⟨roster, phase⟩ (.accept login) ⟨⟨roster.members ++ [login], roster.pending.erase login⟩, phase⟩
  | leave {roster : Roster} {phase login} :
      TeamStep ⟨roster, phase⟩ (.leave login) ⟨{ roster with members := roster.members.erase login }, phase⟩
  | expire {roster : Roster} {phase login} :
      TeamStep ⟨roster, phase⟩ (.expire login) ⟨{ roster with pending := roster.pending.erase login }, phase⟩

variable {organization team} in
theorem teamStep_cases {s s' : TeamState} {e : TeamEvent} (h : teamStep organization team s e = some s') :
    TeamStep organization team s e s' := by
  obtain ⟨roster, phase⟩ := s
  cases e with
  | retrieveTeamMembers students =>
      cases phase <;> simp only [teamStep, reduceCtorEq] at h
      split_ifs at h with hempty
      obtain rfl := Option.some.inj h
      exact .retrieveTeamMembers hempty
  | memberPage logins =>
      cases phase <;> simp only [teamStep, reduceCtorEq] at h
      split_ifs at h with hmembers
      obtain rfl := Option.some.inj h
      exact .memberPage hmembers
  | retrieveExistingInvitations =>
      cases phase <;> simp only [teamStep, reduceCtorEq] at h
      obtain rfl := Option.some.inj h
      exact .retrieveExistingInvitations
  | invitationPage logins =>
      cases phase <;> simp only [teamStep, reduceCtorEq] at h
      split_ifs at h with hpending
      obtain rfl := Option.some.inj h
      exact .invitationPage hpending
  | checkStudents exist =>
      cases phase <;> simp only [teamStep, reduceCtorEq] at h
      split_ifs at h with hvalid
      · obtain rfl := Option.some.inj h
        exact .checked hvalid
      · obtain rfl := Option.some.inj h
        exact .aborted
  | skip =>
      unfold teamStep at h
      dsimp only at h
      split at h
      · obtain rfl := Option.some.inj h
        exact .skip
      · cases h
  | inviteUserToTeam student answer =>
      unfold teamStep at h
      dsimp only at h
      split at h
      · split_ifs at h with hsame
        obtain ⟨rfl, hfits⟩ := hsame
        obtain ⟨roster', hanswer, rfl⟩ := Option.map_eq_some_iff.mp h
        exact .inviteUserToTeam hfits hanswer
      · cases h
  | exit =>
      unfold teamStep at h
      dsimp only at h
      split at h
      · split_ifs at h
        obtain rfl := Option.some.inj h
        exact .exit
      · cases h
  | finish =>
      unfold teamStep at h
      dsimp only at h
      split at h
      · obtain rfl := Option.some.inj h
        exact .finish
      · cases h
  | accept login =>
      unfold teamStep at h
      dsimp only at h
      split_ifs at h with hpending
      obtain rfl := Option.some.inj h
      exact .accept hpending
  | leave login =>
      obtain rfl := Option.some.inj h
      exact .leave
  | expire login =>
      obtain rfl := Option.some.inj h
      exact .expire

end Team

/-! ## Who is known -/

section Roster

variable {roster roster' : Roster} {student other : CString}

theorem IsMember.mono {logins listed : List CString} (hsub : logins ⊆ listed) (h : IsMember logins student) :
    IsMember listed student := by
  obtain ⟨m, hm, heq⟩ := h
  exact ⟨m, hsub hm, heq⟩

theorem isMember_append {listed logins : List CString} :
    IsMember (listed ++ logins) student ↔ IsMember listed student ∨ IsMember logins student := by
  constructor
  · rintro ⟨m, hm, heq⟩
    exact (List.mem_append.mp hm).imp (fun hm => ⟨m, hm, heq⟩) (fun hm => ⟨m, hm, heq⟩)
  · exact fun h => h.elim (IsMember.mono (List.subset_append_left listed logins))
      (IsMember.mono (List.subset_append_right listed logins))

theorem IsMember.of_append_ne {listed : List CString} {login : CString} (h : IsMember (listed ++ [login]) student)
    (hne : ¬ EqIgnoreCase student login) : IsMember listed student := by
  rcases isMember_append.mp h with h | ⟨m, hm, heq⟩
  · exact h
  · exact absurd (List.mem_singleton.mp hm ▸ heq) hne

theorem not_open_iff {members pending : List CString} :
    ¬ Open members pending student ↔ IsMember members student ∨ IsMember pending student := by
  unfold Open IsMember
  grind

theorem Roster.knows_iff :
    roster.Knows student ↔ IsMember roster.members student ∨ IsMember roster.pending student :=
  not_open_iff

/-- Case does not matter. -/
theorem open_congr {members pending : List CString} (h : EqIgnoreCase student other) :
    Open members pending student ↔ Open members pending other := by
  have hiff : ∀ x, EqIgnoreCase student x ↔ EqIgnoreCase other x := fun x => ⟨h.symm.trans, h.trans⟩
  unfold Open
  simp only [hiff]

/-- Who accepts an invitation was known before. -/
theorem Roster.knows_accept {login : CString} (hlogin : login ∈ roster.pending) :
    (Roster.mk (roster.members ++ [login]) (roster.pending.erase login)).Knows student ↔ roster.Knows student := by
  have hperm := List.perm_cons_erase hlogin
  have hpending : IsMember roster.pending student ↔
      IsMember [login] student ∨ IsMember (roster.pending.erase login) student :=
    ⟨fun h => isMember_append.mp (h.mono hperm.subset), fun h => (isMember_append.mpr h).mono hperm.symm.subset⟩
  rw [Roster.knows_iff, Roster.knows_iff, isMember_append, hpending, or_assoc]

/-- Nobody becomes known by leaving or by expiring. -/
theorem Roster.knows_of_leave {login : CString}
    (h : ({ roster with members := roster.members.erase login } : Roster).Knows student) : roster.Knows student := by
  rw [Roster.knows_iff] at h ⊢
  exact h.imp_left (IsMember.mono List.erase_subset)

theorem Roster.knows_of_expire {login : CString}
    (h : ({ roster with pending := roster.pending.erase login } : Roster).Knows student) : roster.Knows student := by
  rw [Roster.knows_iff] at h ⊢
  exact h.imp_right (IsMember.mono List.erase_subset)

/-- What an answer does: nothing, or one more login in one of the lists, of the student who was not known. -/
theorem Roster.answer_cases {answer : MembershipAnswer} (h : roster.answer student answer = some roster') :
    (roster' = roster ∧ (answer = .refused ∨ roster.Knows student)) ∨
      ∃ login, EqIgnoreCase student login ∧
        (roster' = { roster with members := roster.members ++ [login] } ∨
          roster' = { roster with pending := roster.pending ++ [login] }) := by
  cases answer with
  | refused => exact .inl ⟨(Option.some.inj h).symm, .inl rfl⟩
  | joined login =>
      by_cases hlogin : EqIgnoreCase student login
      · simp only [Roster.answer, if_pos hlogin, Option.some.injEq] at h
        by_cases hknown : roster.Knows student
        · exact .inl ⟨by rw [← h, if_pos hknown], .inr hknown⟩
        · exact .inr ⟨login, hlogin, .inl (by rw [← h, if_neg hknown])⟩
      · simp [Roster.answer, hlogin] at h
  | invited login =>
      by_cases hlogin : EqIgnoreCase student login
      · simp only [Roster.answer, if_pos hlogin, Option.some.injEq] at h
        by_cases hknown : roster.Knows student
        · exact .inl ⟨by rw [← h, if_pos hknown], .inr hknown⟩
        · exact .inr ⟨login, hlogin, .inr (by rw [← h, if_neg hknown])⟩
      · simp [Roster.answer, hlogin] at h

/-- Nobody is forgotten by an answer. -/
theorem Roster.knows_answer {answer : MembershipAnswer} (h : roster.answer student answer = some roster')
    (hknows : roster.Knows other) : roster'.Knows other := by
  rw [Roster.knows_iff] at hknows ⊢
  rcases Roster.answer_cases h with ⟨rfl, -⟩ | ⟨login, -, rfl | rfl⟩
  · exact hknows
  · exact hknows.imp_left (IsMember.mono (List.subset_append_left _ _))
  · exact hknows.imp_right (IsMember.mono (List.subset_append_left _ _))

/-- And only the student becomes known. -/
theorem Roster.knows_of_answer {answer : MembershipAnswer} (h : roster.answer student answer = some roster')
    (hother : ¬ EqIgnoreCase other student) (hknows : roster'.Knows other) : roster.Knows other := by
  have hne : ∀ login, EqIgnoreCase student login → ¬ EqIgnoreCase other login :=
    fun login hlogin heq => hother (heq.trans hlogin.symm)
  rw [Roster.knows_iff] at hknows ⊢
  rcases Roster.answer_cases h with ⟨rfl, -⟩ | ⟨login, hlogin, rfl | rfl⟩
  · exact hknows
  · exact hknows.imp_left fun hmember => hmember.of_append_ne (hne login hlogin)
  · exact hknows.imp_right fun hmember => hmember.of_append_ne (hne login hlogin)

/-- Who is not refused is known. -/
theorem Roster.knows_of_not_refused {answer : MembershipAnswer} (h : roster.answer student answer = some roster')
    (hanswer : answer ≠ .refused) : roster'.Knows student := by
  rcases Roster.answer_cases h with ⟨rfl, hrefused | hknows⟩ | ⟨login, hlogin, rfl | rfl⟩
  · exact absurd hrefused hanswer
  · exact hknows
  · exact Roster.knows_iff.mpr (.inl ⟨login, by simp, hlogin⟩)
  · exact Roster.knows_iff.mpr (.inr ⟨login, by simp, hlogin⟩)

end Roster

/-! ## Nobody is invited twice -/

/-- No name is there twice, ignoring case. -/
def DistinctNames (students : List CString) : Prop := students.Pairwise fun a b => ¬ EqIgnoreCase a b

instance (students : List CString) : Decidable (DistinctNames students) :=
  inferInstanceAs (Decidable (List.Pairwise _ _))

/-- What the first loop leaves, if it does not abort: the students that are in neither list. -/
theorem checkStudents_open {existingStudents existingInvitations students : List CString} {exist : Nat → Int}
    (h : (checkStudents existingStudents existingInvitations exist students 0 ⟨[], 0, 0, 0⟩).invalidCount = 0) :
    (checkStudents existingStudents existingInvitations exist students 0 ⟨[], 0, 0, 0⟩).elem.filterMap id
      = students.filter fun s => Open existingStudents existingInvitations s := by
  have hexist : ∀ j (hj : j < students.length), Open existingStudents existingInvitations students[j] →
      exist (0 + j) ≠ 0 := by
    intro j hj hopen hzero
    have hinvalid := checkStudents_invalid (i := 0) ⟨[], 0, 0, 0⟩ ⟨j, hj, hopen, hzero⟩
    rw [hinvalid] at h
    exact absurd h (by decide)
  rw [checkStudents_valid (i := 0) ⟨[], 0, 0, 0⟩ hexist]
  simp only [List.nil_append, filterMap_mark]

section Once

variable {organization team : CString} {student : CString} {s s' : TeamState} {e : TeamEvent}

/-- The list of members that was retrieved misses the student. -/
def MissedMember (student : CString) (s : TeamState) : Prop :=
  ∃ students existingStudents, s.phase = .listingMembers students existingStudents ∧
    IsMember s.roster.members student ∧ ¬ IsMember existingStudents student

/-- And so does the list of invitations. -/
def MissedInvitation (student : CString) (s : TeamState) : Prop :=
  ∃ students existingStudents existingInvitations,
    s.phase = .listingInvitations students existingStudents existingInvitations ∧
      IsMember s.roster.pending student ∧ ¬ IsMember existingInvitations student

/-- No file names a student twice, neither list misses the student when its retrieval ends, and the student does not
    accept while the invitations are retrieved. -/
def Calm (student : CString) (s : TeamState) : TeamEvent → Prop
  | .retrieveTeamMembers students => DistinctNames students
  | .retrieveExistingInvitations => ¬ MissedMember student s
  | .checkStudents _ => ¬ MissedInvitation student s
  | .accept login => EqIgnoreCase student login → ∀ students existingStudents existingInvitations,
      s.phase ≠ .listingInvitations students existingStudents existingInvitations
  | _ => True

/-- What a run knows about a student: who is known now is in one of the listings, or not among those to invite. -/
def Accounted (student : CString) (s : TeamState) : Prop :=
  match s.phase with
  | .idle => True
  | .listingMembers students _ => DistinctNames students
  | .listingInvitations students existingStudents _ =>
      DistinctNames students ∧ (IsMember s.roster.members student → IsMember existingStudents student)
  | .inviting entries =>
      DistinctNames (entries.filterMap id) ∧ (s.roster.Knows student → ∀ x ∈ entries.filterMap id,
        ¬ EqIgnoreCase student x)

/-- **One event** keeps the books. -/
theorem Accounted.step (h : Accounted student s) (hcalm : Calm student s e)
    (hstep : teamStep organization team s e = some s') : Accounted student s' := by
  cases teamStep_cases hstep with
  | retrieveTeamMembers => exact hcalm
  | memberPage => exact h
  | @retrieveExistingInvitations roster students existingStudents =>
      refine ⟨h, fun hmember => ?_⟩
      by_contra hmissed
      exact hcalm ⟨students, existingStudents, rfl, hmember, hmissed⟩
  | invitationPage => exact h
  | @checked roster students existingStudents existingInvitations exist hvalid =>
      obtain ⟨hdistinct, hmembers⟩ := h
      have hopen := checkStudents_open hvalid
      unfold Accounted
      dsimp only
      rw [hopen]
      refine ⟨hdistinct.sublist List.filter_sublist, fun hknows x hx heq => ?_⟩
      have hstudent : Open existingStudents existingInvitations student :=
        (open_congr heq).mpr (by simpa using (List.mem_filter.mp hx).2)
      rcases Roster.knows_iff.mp hknows with hmember | hpending
      · obtain ⟨m, hm, hsame⟩ := hmembers hmember
        exact hstudent.1 m hm hsame
      · exact hcalm ⟨students, existingStudents, existingInvitations, rfl, hpending,
          fun ⟨p, hp, hsame⟩ => hstudent.2 p hp hsame⟩
  | aborted => trivial
  | skip => exact h
  | @inviteUserToTeam roster roster' student' answer entries hfits hanswer =>
      obtain ⟨hdistinct, hothers⟩ := h
      obtain ⟨hnew, hdistinct⟩ := List.pairwise_cons.mp hdistinct
      refine ⟨hdistinct, fun hknows x hx heq => ?_⟩
      by_cases hsame : EqIgnoreCase student student'
      · -- the entry was for the student, so no other one is
        exact hnew x hx (hsame.symm.trans heq)
      · exact hothers (Roster.knows_of_answer hanswer hsame hknows) x (List.mem_cons_of_mem _ hx) heq
  | exit => trivial
  | finish => trivial
  | @accept roster phase login hpending =>
      cases phase with
      | idle => trivial
      | listingMembers => exact h
      | listingInvitations students existingStudents existingInvitations =>
          -- the student does not accept here
          have hother : ¬ EqIgnoreCase student login := fun heq =>
            hcalm heq students existingStudents existingInvitations rfl
          exact ⟨h.1, fun hmember => h.2 (hmember.of_append_ne hother)⟩
      | inviting => exact ⟨h.1, fun hknows => h.2 ((Roster.knows_accept hpending).mp hknows)⟩
  | @leave roster phase login =>
      cases phase with
      | idle => trivial
      | listingMembers => exact h
      | listingInvitations => exact ⟨h.1, fun hmember => h.2 (hmember.mono List.erase_subset)⟩
      | inviting => exact ⟨h.1, fun hknows => h.2 (Roster.knows_of_leave hknows)⟩
  | @expire roster phase login =>
      cases phase with
      | idle => trivial
      | listingMembers => exact h
      | listingInvitations => exact h
      | inviting => exact ⟨h.1, fun hknows => h.2 (Roster.knows_of_expire hknows)⟩

/-- **Nobody is invited twice.** However often the command runs, and whoever accepts, leaves or lets an invitation
    expire between any two of its requests: when a student is invited, that student is neither in the team nor invited
    already, unless a file names somebody twice, a list that was retrieved misses the student, or the student accepted
    while the invitations were retrieved. -/
theorem never_invited_twice {roster : Roster} {es : List TeamEvent} {answer : MembershipAnswer}
    (hrun : Run (teamStep organization team) ⟨roster, .idle⟩ es s)
    (hcalm : Obeys (teamStep organization team) ⟨roster, .idle⟩ (Calm student) es)
    (hrequest : teamStep organization team s (.inviteUserToTeam student answer) = some s') :
    ¬ s.roster.Knows student := by
  have hstart : Accounted student ⟨roster, .idle⟩ := trivial
  have hbooks : Accounted student s :=
    hrun.invariant_of_obeys (Accounted student) hstart (fun _ _ _ h hcalm hstep => h.step hcalm hstep) hcalm
  intro hknows
  cases teamStep_cases hrequest with
  | @inviteUserToTeam roster roster' _ _ entries _ _ =>
      exact hbooks.2 hknows student (List.mem_cons_self) rfl

end Once

/-- Bob is in the team, Alice is invited. -/
def aliceInvited : Roster := ⟨[CString.lit "bob"], [CString.lit "Alice"]⟩

/-- Inviting Bob and Carol, up to the second loop. Alice accepts behind the page of members, and is on no page. -/
def carolNew : List TeamEvent :=
  [.retrieveTeamMembers [CString.lit "Bob", CString.lit "carol"], .memberPage [CString.lit "bob"],
    .accept (CString.lit "Alice"), .retrieveExistingInvitations, .invitationPage [], .checkStudents fun _ => 1]

/-- The team once Alice has accepted. -/
def aliceJoined : Roster := ⟨[CString.lit "bob", CString.lit "Alice"], []⟩

theorem never_invited_twice_carol : ¬ aliceJoined.Knows (CString.lit "carol") := by
  have hrun : Run (teamStep (CString.lit "course") (CString.lit "students")) ⟨aliceInvited, .idle⟩
      (carolNew ++ [.skip]) ⟨aliceJoined, .inviting [some (CString.lit "carol")]⟩ := by
    rw [run_iff_foldlM]
    rfl
  have hobeys : Obeys (teamStep (CString.lit "course") (CString.lit "students")) ⟨aliceInvited, .idle⟩
      (Calm (CString.lit "carol")) (carolNew ++ [.skip]) := by
    have hdistinct : DistinctNames [CString.lit "Bob", CString.lit "carol"] := by decide +kernel
    have halice : ¬ EqIgnoreCase (CString.lit "carol") (CString.lit "Alice") := by decide +kernel
    have hmember : ¬ IsMember aliceJoined.members (CString.lit "carol") := by decide +kernel
    have hpending : ¬ IsMember aliceJoined.pending (CString.lit "carol") := by decide +kernel
    exact .cons rfl hdistinct <| .cons rfl trivial <| .cons rfl (fun heq => absurd heq halice) <|
      .cons rfl (fun ⟨_, _, _, hin, _⟩ => hmember hin) <| .cons rfl trivial <|
      .cons rfl (fun ⟨_, _, _, _, hin, _⟩ => hpending hin) <| .cons rfl trivial .nil
  have hrequest : (teamStep (CString.lit "course") (CString.lit "students")
      ⟨aliceJoined, .inviting [some (CString.lit "carol")]⟩
        (.inviteUserToTeam (CString.lit "carol") .refused)).isSome = true := by
    decide +kernel
  obtain ⟨s', hs'⟩ := Option.isSome_iff_exists.mp hrequest
  exact never_invited_twice hrun hobeys hs'

/-- Bob was on a page of members that failed, and is about to be invited again. -/
example : ((([.retrieveTeamMembers [CString.lit "Bob"], .retrieveExistingInvitations,
    .invitationPage [CString.lit "Alice"], .checkStudents fun _ => 1] : List TeamEvent).foldlM
      (teamStep (CString.lit "course") (CString.lit "students")) ⟨aliceInvited, .idle⟩).bind fun s =>
        teamStep (CString.lit "course") (CString.lit "students") s
          (.inviteUserToTeam (CString.lit "Bob") .refused)).any
            (fun s => decide (s.roster.Knows (CString.lit "Bob"))) = true := by
  decide +kernel

/-! ## Nobody is lost -/

section Everyone

variable {organization team : CString} {student : CString} {s s' : TeamState} {e : TeamEvent}

/-- An event that takes nobody from the team: neither the start of another run, nor a refusal, nor an end of a
    membership or an invitation. -/
def Keeping : TeamEvent → Prop
  | .retrieveTeamMembers _        => False
  | .inviteUserToTeam _ .refused  => False
  | .leave _                      => False
  | .expire _                     => False
  | _                             => True

/-- A student of the file is known or will be invited, as long as the run is not aborted. -/
def Heeded (student : CString) (s : TeamState) : Prop :=
  match s.phase with
  | .idle => True
  | .listingMembers students existingStudents =>
      student ∈ students ∧ (IsMember existingStudents student → s.roster.Knows student)
  | .listingInvitations students existingStudents existingInvitations =>
      student ∈ students ∧ (¬ Open existingStudents existingInvitations student → s.roster.Knows student)
  | .inviting entries => s.roster.Knows student ∨ student ∈ entries.filterMap id

/-- **One event** keeps that. -/
theorem Heeded.step (h : Heeded student s) (hkeeps : Keeping e) (hstep : teamStep organization team s e = some s') :
    Heeded student s' := by
  cases teamStep_cases hstep with
  | retrieveTeamMembers => exact hkeeps.elim
  | @memberPage roster students existingStudents logins hpage =>
      refine ⟨h.1, fun hlisted => ?_⟩
      rcases isMember_append.mp hlisted with hlisted | hnew
      · exact h.2 hlisted
      · exact Roster.knows_iff.mpr (.inl (hnew.mono hpage))
  | @retrieveExistingInvitations roster students existingStudents =>
      refine ⟨h.1, fun hlisted => ?_⟩
      rcases not_open_iff.mp hlisted with hmember | ⟨p, hp, -⟩
      · exact h.2 hmember
      · exact absurd hp List.not_mem_nil
  | @invitationPage roster students existingStudents existingInvitations logins hpage =>
      refine ⟨h.1, fun hlisted => ?_⟩
      rcases not_open_iff.mp hlisted with hmember | hlisted
      · exact h.2 (not_open_iff.mpr (.inl hmember))
      · rcases isMember_append.mp hlisted with hlisted | hnew
        · exact h.2 (not_open_iff.mpr (.inr hlisted))
        · exact Roster.knows_iff.mpr (.inr (hnew.mono hpage))
  | @checked roster students existingStudents existingInvitations exist hvalid =>
      have hopen := checkStudents_open hvalid
      unfold Heeded
      dsimp only
      rw [hopen]
      by_cases hstudent : Open existingStudents existingInvitations student
      · exact .inr (List.mem_filter.mpr ⟨h.1, by simpa using hstudent⟩)
      · exact .inl (h.2 hstudent)
  | aborted => trivial
  | skip => exact h
  | @inviteUserToTeam roster roster' student' answer entries hfits hanswer =>
      rcases h with hknows | hmem
      · exact .inl (Roster.knows_answer hanswer hknows)
      · rcases List.mem_cons.mp hmem with rfl | hmem
        · refine .inl (Roster.knows_of_not_refused hanswer ?_)
          rintro rfl
          exact hkeeps
        · exact .inr hmem
  | exit => trivial
  | finish => trivial
  | @accept roster phase login hpending =>
      have hknows : roster.Knows student → _ := (Roster.knows_accept hpending).mpr
      cases phase with
      | idle => trivial
      | listingMembers => exact ⟨h.1, fun hlisted => hknows (h.2 hlisted)⟩
      | listingInvitations => exact ⟨h.1, fun hlisted => hknows (h.2 hlisted)⟩
      | inviting => exact h.imp_left hknows
  | leave => exact hkeeps.elim
  | expire => exact hkeeps.elim

/-- **Everyone is invited.** When the function returns from its second loop, every student of the file is in the team or
    invited, whoever accepted meanwhile, unless a request was refused or somebody left or lost an invitation. -/
theorem everyone_invited {students : List CString} {es : List TeamEvent} {t t' : TeamState}
    (hbegin : teamStep organization team s (.retrieveTeamMembers students) = some t)
    (hrun : Run (teamStep organization team) t es t') (hkeeps : ∀ e ∈ es, Keeping e)
    (hfinish : teamStep organization team t' .finish = some s') : ∀ student ∈ students, s'.roster.Knows student := by
  intro student hstudent
  have hstart : Heeded student t := by
    cases teamStep_cases hbegin with
    | retrieveTeamMembers => exact ⟨hstudent, fun ⟨m, hm, _⟩ => absurd hm List.not_mem_nil⟩
  have hobeys : Obeys (teamStep organization team) t (fun _ e => Keeping e) es := by
    rintro before e after u rfl -
    exact hkeeps e (by simp)
  have hend := hrun.invariant_of_obeys (Heeded student) hstart (fun _ _ _ h hkeeps hstep => h.step hkeeps hstep) hobeys
  cases teamStep_cases hfinish with
  | finish => exact hend.resolve_right List.not_mem_nil

end Everyone

/-- Alice accepts while Carol is invited, and the listing of the members has failed. -/
theorem everyone_invited_carol :
    Roster.Knows ⟨[CString.lit "bob", CString.lit "Alice"], [CString.lit "carol"]⟩ (CString.lit "alice") ∧
      Roster.Knows ⟨[CString.lit "bob", CString.lit "Alice"], [CString.lit "carol"]⟩ (CString.lit "carol") := by
  have hrun : Run (teamStep (CString.lit "course") (CString.lit "students"))
      ⟨aliceInvited, .listingMembers [CString.lit "alice", CString.lit "carol"] []⟩
      [.retrieveExistingInvitations, .invitationPage [CString.lit "Alice"], .checkStudents fun _ => 1, .skip,
        .accept (CString.lit "Alice"),
        .inviteUserToTeam (CString.lit "carol") (.invited (CString.lit "carol"))]
      ⟨⟨[CString.lit "bob", CString.lit "Alice"], [CString.lit "carol"]⟩, .inviting []⟩ := by
    rw [run_iff_foldlM]
    rfl
  have hbegin : teamStep (CString.lit "course") (CString.lit "students") ⟨aliceInvited, .idle⟩
      (.retrieveTeamMembers [CString.lit "alice", CString.lit "carol"])
        = some ⟨aliceInvited, .listingMembers [CString.lit "alice", CString.lit "carol"] []⟩ := rfl
  have hfinish : teamStep (CString.lit "course") (CString.lit "students")
      ⟨⟨[CString.lit "bob", CString.lit "Alice"], [CString.lit "carol"]⟩, .inviting []⟩ .finish
        = some ⟨⟨[CString.lit "bob", CString.lit "Alice"], [CString.lit "carol"]⟩, .idle⟩ := rfl
  have hkeeps : ∀ e ∈ [TeamEvent.retrieveExistingInvitations, .invitationPage [CString.lit "Alice"],
      .checkStudents fun _ => 1, .skip, .accept (CString.lit "Alice"),
      .inviteUserToTeam (CString.lit "carol") (.invited (CString.lit "carol"))], Keeping e := by
    intro e he
    simp only [List.mem_cons, List.not_mem_nil, or_false] at he
    rcases he with rfl | rfl | rfl | rfl | rfl | rfl <;> trivial
  have hall := everyone_invited hbegin hrun hkeeps hfinish
  exact ⟨hall _ (by simp), hall _ (by simp)⟩

/-! ## The machine and the function -/

section Function

variable (organization team : CString) (accepted : Nat → Bool)

/-- Whom the events ask GitHub to invite. -/
def invitedBy (es : List TeamEvent) : List CString :=
  es.filterMap fun
    | .inviteUserToTeam student _ => some student
    | _                           => none

/-- GitHub's answer, where it accepts request `n` by an invitation. -/
def answerTo (n : Nat) (student : CString) : MembershipAnswer :=
  if accepted n then .invited student else .refused

theorem exists_answerTo (roster : Roster) (n : Nat) (student : CString) :
    ∃ roster', roster.answer student (answerTo accepted n student) = some roster' := by
  unfold answerTo
  split
  · exact ⟨_, if_pos rfl⟩
  · exact ⟨roster, rfl⟩

/-- **The second loop is a run of the machine** in which nobody else does anything. -/
theorem inviteLoop_run (entries : List (Option CString)) (roster : Roster) (s : Invited) :
    ∃ es t, Run (teamStep organization team) ⟨roster, .inviting entries⟩ es t ∧
      (inviteLoop organization team accepted entries s).1.requests
        = s.requests ++ (invitedBy es).map (membershipUrl organization team) ∧
      ((inviteLoop organization team accepted entries s).2 = none → t.phase = .inviting []) := by
  induction entries generalizing roster s with
  | nil => exact ⟨[], _, .start, by simp [inviteLoop, invitedBy], fun _ => rfl⟩
  | cons entry entries ih =>
      cases entry with
      | none =>
          obtain ⟨es, t, hrun, hrequests, hend⟩ := ih roster s
          exact ⟨.skip :: es, t, Run.cons rfl hrun, hrequests, hend⟩
      | some student =>
          by_cases hfits : MembershipFits organization team student
          · obtain ⟨roster', hanswer⟩ := exists_answerTo accepted roster s.requests.length student
            have hstep : teamStep organization team ⟨roster, .inviting (some student :: entries)⟩
                (.inviteUserToTeam student (answerTo accepted s.requests.length student))
                  = some ⟨roster', .inviting entries⟩ := by
              simp [teamStep, hfits, hanswer]
            have hloop : ∃ s' : Invited, s'.requests = s.requests ++ [membershipUrl organization team student] ∧
                inviteLoop organization team accepted (some student :: entries) s
                  = inviteLoop organization team accepted entries s' := by
              rw [inviteLoop, formatString_ok hfits]
              dsimp only
              split
              · exact ⟨_, rfl, rfl⟩
              · exact ⟨_, rfl, rfl⟩
            obtain ⟨s', hs', hloop⟩ := hloop
            obtain ⟨es, t, hrun, hrequests, hend⟩ := ih roster' s'
            rw [hloop]
            refine ⟨_, t, Run.cons hstep hrun, ?_, hend⟩
            rw [hrequests, hs', List.append_assoc]
            rfl
          · have hstep : teamStep organization team ⟨roster, .inviting (some student :: entries)⟩ .exit
                = some ⟨roster, .idle⟩ := by
              simp [teamStep, hfits]
            rw [inviteLoop, formatString_exit (Nat.not_lt.mp hfits)]
            exact ⟨[.exit], _, Run.start.step hstep, by simp [invitedBy], fun hnone => by cases hnone⟩

/-- **The function is a run of the machine**, from the pages of the listings to the last of its requests. -/
theorem inviteStudents_run {students existingStudents existingInvitations : List CString} (hstudents : students ≠ [])
    {roster : Roster} (hmembers : existingStudents ⊆ roster.members) (hpending : existingInvitations ⊆ roster.pending)
    (exist : Nat → Int) :
    ∃ es t, Run (teamStep organization team) ⟨roster, .idle⟩ es t ∧
      (inviteStudents organization team accepted students existingStudents existingInvitations exist).2.1.requests
        = (invitedBy es).map (membershipUrl organization team) := by
  have hbegin : Run (teamStep organization team) ⟨roster, .idle⟩
      [.retrieveTeamMembers students, .memberPage existingStudents, .retrieveExistingInvitations,
        .invitationPage existingInvitations]
      ⟨roster, .listingInvitations students existingStudents existingInvitations⟩ := by
    rw [run_iff_foldlM]
    simp [teamStep, hstudents, hmembers, hpending]
  unfold inviteStudents
  dsimp only
  by_cases hvalid :
      (checkStudents existingStudents existingInvitations exist students 0 ⟨[], 0, 0, 0⟩).invalidCount = 0
  · have hcheck : teamStep organization team
        ⟨roster, .listingInvitations students existingStudents existingInvitations⟩
        (.checkStudents exist) = some ⟨roster, .inviting
          (checkStudents existingStudents existingInvitations exist students 0 ⟨[], 0, 0, 0⟩).elem⟩ := if_pos hvalid
    obtain ⟨es, t, hrun, hrequests, -⟩ := inviteLoop_run organization team accepted
      (checkStudents existingStudents existingInvitations exist students 0 ⟨[], 0, 0, 0⟩).elem roster ⟨[], 0, 0⟩
    refine ⟨_, t, hbegin.append (Run.cons hcheck hrun), ?_⟩
    rw [if_pos hvalid, hrequests]
    rfl
  · refine ⟨_, _, hbegin, ?_⟩
    rw [if_neg hvalid]
    rfl

end Function

end Hand2
