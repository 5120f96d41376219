import Hand2.Common
import Mathlib.Data.List.Nodup
import Mathlib.Logic.Function.Basic

/-!
# `Announce.Github` — the issues of an organization

What GitHub keeps and what a request that succeeds does to it. Issues of a repository are told apart by their numbers,
which are never zero, and repositories by their names up to the case of ASCII letters. `titled` is all the
announcement of grades looks at: the issues with one title.
-/

namespace Hand2

/-- A number GitHub gives an issue. -/
abbrev IssueNumber := { n : Int // 0 < n ∧ n ≤ intMax }

/-- An issue. -/
structure Issue where
  number : IssueNumber
  title : CString
  body : CString
  deriving DecidableEq

/-- The number of the first issue, zero if there is none. -/
def firstNumber : List Issue → Int
  | issue :: _ => issue.number.val
  | []         => 0

/-- The issues of a repository. -/
structure Tracker where
  issues : List Issue
  distinct : (issues.map Issue.number).Nodup

namespace Tracker

/-- A repository without issues. -/
def empty : Tracker := ⟨[], List.nodup_nil⟩

/-- The issues with a title. -/
def titled (tracker : Tracker) (title : CString) : List Issue :=
  tracker.issues.filter (fun issue => compareString issue.title title)

/-- The number of the first issue with a title, zero if there is none. -/
def titledNumber (tracker : Tracker) (title : CString) : Int := firstNumber (tracker.titled title)

/-- A new issue, if its number is free. -/
def create (tracker : Tracker) (number : IssueNumber) (title body : CString) :
    Option (Tracker × IssueNumber) :=
  if hused : number ∈ tracker.issues.map Issue.number then none
  else
    have hdistinct : ((tracker.issues ++ [(⟨number, title, body⟩ : Issue)]).map Issue.number).Nodup := by
      rw [List.map_append, List.nodup_append]
      refine ⟨tracker.distinct, List.nodup_singleton _, ?_⟩
      rintro n hn m hm rfl
      have hnew : n = number := List.mem_singleton.mp hm
      exact hused (hnew ▸ hn)
    some (⟨tracker.issues ++ [⟨number, title, body⟩], hdistinct⟩, number)

/-- An issue with its title and body replaced, if it is the one of that number. -/
def replaced (number : IssueNumber) (title body : CString) (issue : Issue) : Issue :=
  if issue.number = number then { issue with title, body } else issue

@[simp] theorem number_replaced (number : IssueNumber) (title body : CString) (issue : Issue) :
    (replaced number title body issue).number = issue.number := by
  unfold replaced
  split <;> rfl

/-- The issue of a number with a new title and body, if there is one. -/
def edit (tracker : Tracker) (number : Int) (title body : CString) : Option (Tracker × IssueNumber) :=
  match tracker.issues.find? (fun issue => issue.number.val == number) with
  | none       => none
  | some found =>
      have hdistinct : ((tracker.issues.map (replaced found.number title body)).map Issue.number).Nodup := by
        rw [List.map_map]
        have hnumber : Issue.number ∘ replaced found.number title body = Issue.number :=
          funext (number_replaced found.number title body)
        rw [hnumber]
        exact tracker.distinct
      some (⟨tracker.issues.map (replaced found.number title body), hdistinct⟩, found.number)

/-! ## The issues with one title -/

/-- Issues of one number are one issue. -/
theorem eq_of_number {tracker : Tracker} {i j : Issue} (hi : i ∈ tracker.issues) (hj : j ∈ tracker.issues)
    (h : i.number = j.number) : i = j :=
  List.inj_on_of_nodup_map tracker.distinct hi hj h

theorem titledNumber_of_nil {tracker : Tracker} {title : CString} (h : tracker.titled title = []) :
    tracker.titledNumber title = 0 := by
  rw [titledNumber, h]
  rfl

theorem titledNumber_of_cons {tracker : Tracker} {title : CString} {issue : Issue} {issues : List Issue}
    (h : tracker.titled title = issue :: issues) : tracker.titledNumber title = issue.number.val := by
  rw [titledNumber, h]
  rfl

/-- A new issue comes behind those of its title. -/
theorem titled_create {tracker tracker' : Tracker} {number given : IssueNumber} {title body : CString}
    (h : tracker.create number title body = some (tracker', given)) :
    given = number ∧ tracker'.titled title = tracker.titled title ++ [⟨number, title, body⟩] := by
  unfold create at h
  split at h
  · cases h
  · injection h with h
    obtain ⟨rfl, rfl⟩ := Prod.mk.inj h
    refine ⟨rfl, ?_⟩
    simp [titled]

/-- The only issue of a title, edited under its number, stays the only one. -/
theorem titled_edit {tracker tracker' : Tracker} {issue : Issue} {given : IssueNumber} {title body : CString}
    (htitled : tracker.titled title = [issue])
    (h : tracker.edit issue.number.val title body = some (tracker', given)) :
    given = issue.number ∧ tracker'.titled title = [⟨issue.number, title, body⟩] := by
  have hmem : issue ∈ tracker.titled title := by
    rw [htitled]
    exact List.mem_singleton_self issue
  obtain ⟨hissue, htitle⟩ := List.mem_filter.mp hmem
  unfold edit at h
  split at h
  · cases h
  · next found hfound =>
      injection h with h
      obtain ⟨rfl, rfl⟩ := Prod.mk.inj h
      have hnumber : found.number = issue.number := by
        have := List.find?_some hfound
        exact Subtype.ext (by simpa using this)
      refine ⟨hnumber, ?_⟩
      -- an issue passes the filter after the edit if and only if it did before
      have hsame : ∀ i ∈ tracker.issues,
          compareString (replaced issue.number title body i).title title = compareString i.title title := by
        intro i hi
        unfold replaced
        split
        · next hin =>
            rw [eq_of_number hi hissue hin, htitle]
            simp
        · rfl
      calc (tracker.issues.map (replaced found.number title body)).filter (fun i => compareString i.title title)
          = ((tracker.issues.filter (fun i => compareString i.title title)).map
              (replaced issue.number title body)) := by
            rw [hnumber, List.filter_map]
            congr 1
            exact List.filter_congr hsame
        _ = [replaced issue.number title body issue] := by
            rw [show tracker.issues.filter (fun i => compareString i.title title) = [issue] from htitled]
            rfl
        _ = [⟨issue.number, title, body⟩] := by
            unfold replaced
            rw [if_pos rfl]

/-- **Edit if there is one, create if there is none.** With at most one issue of the title to start from, what this
    leaves is one issue of the title, with the body; and it is the one that was there, if there was one. -/
theorem titled_change {tracker tracker' : Tracker} {fresh given : IssueNumber} {title body : CString}
    (hone : (tracker.titled title).length ≤ 1)
    (h : (if tracker.titledNumber title ≠ 0 then tracker.edit (tracker.titledNumber title) title body
      else tracker.create fresh title body) = some (tracker', given)) :
    tracker'.titled title = [⟨given, title, body⟩] ∧
      (tracker.titledNumber title = 0 ∨ tracker.titledNumber title = given.val) := by
  cases htitled : tracker.titled title with
  | nil =>
      have hzero := titledNumber_of_nil htitled
      rw [if_neg (not_not.mpr hzero)] at h
      obtain ⟨rfl, hnew⟩ := titled_create h
      rw [htitled] at hnew
      exact ⟨hnew, .inl hzero⟩
  | cons issue issues =>
      -- there is only one, so the first is the one that is edited
      obtain rfl : issues = [] := by
        rw [htitled, List.length_cons] at hone
        exact List.length_eq_zero_iff.mp (by omega)
      have hnumber := titledNumber_of_cons htitled
      rw [hnumber, if_pos (Int.ne_of_gt issue.number.property.1)] at h
      obtain ⟨rfl, hnew⟩ := titled_edit htitled h
      exact ⟨hnew, .inr hnumber⟩

end Tracker

/-! ## All repositories -/

/-- What tells repositories apart. -/
def repoKey (repo : CString) : List UInt8 := repo.bytes.map toLowerAscii

/-- The repositories of an organization, by their names ignoring case. -/
abbrev Github := List UInt8 → Tracker

/-- How a request fares: whether GitHub carries it out, the number it gives to a new issue, and what
    `end_curl_group` makes of its end. -/
structure RequestFate where
  carriedOut : Bool
  number : IssueNumber
  reported : Bool

/-- GitHub after a request to a repository, and the issue that was created or edited. A request that is not carried
    out changes nothing. -/
def Github.answer (github : Github) (fate : RequestFate) (repo : CString)
    (change : Option (Tracker × IssueNumber)) : Github × Option IssueNumber :=
  match fate.carriedOut, change with
  | true, some (tracker, number) => (Function.update github (repoKey repo) tracker, some number)
  | _, _                            => (github, none)

/-- The two ways a request can end. -/
theorem Github.answer_cases (github : Github) (fate : RequestFate) (repo : CString)
    (change : Option (Tracker × IssueNumber)) :
    github.answer fate repo change = (github, none) ∨
    ∃ tracker number, change = some (tracker, number) ∧
      github.answer fate repo change = (Function.update github (repoKey repo) tracker, some number) := by
  unfold Github.answer
  split
  · exact .inr ⟨_, _, rfl, rfl⟩
  · exact .inl rfl

end Hand2
