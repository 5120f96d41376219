import Hand2.Sheet
import Hand2.Feedback.FileReplacement

/-!
# `Feedback.Issues` — `format_feedback_issues`

Stage two of the feedback. The scanner of a report differs from stage one: `$$` loses a dollar, a label is
looked up only at a `}` that closes a placeholder opened outside any other, and a `}` outside all of them
is not written. A label that is missing clears the success flag of the whole call.
-/

namespace Hand2

/-- The `for` loop over report `y` from position `i`, with `fuel` an upper bound of the iterations left; the
    buffer and the success flag. -/
def issueLoop (sheet : Sheet) (y : Nat) (format : List UInt8) :
    Nat → Nat → Nat → Option Nat → List UInt8 → Bool → Except Fault (List UInt8 × Bool)
  | 0,        _, _,     _,     buffer, success => .ok (buffer, success)
  | fuel + 1, i, depth, label, buffer, success =>
      let c := fun k => format.getD (i + k) 0
      if c 0 ≠ 0 then
        if c 0 = dollar ∧ c 1 = dollar then
          issueLoop sheet y format fuel (i + 2) depth label (buffer ++ [dollar]) success
        else if c 0 = dollar ∧ c 1 = openBrace then
          let label := if depth = 0 then some (i + 2) else label
          issueLoop sheet y format fuel (i + 2) (depth + 1) label buffer success
        else if c 0 = closeBrace then
          if depth = 1 then
            match label with
            | none => .error .nullPointer
            | some at_ =>
                let memory := format.set i 0
                match findLabel sheet (CString.ofBytes (memory.drop at_)) with
                | some x => do
                    let replacement ← getValue sheet x y
                    issueLoop sheet y format fuel (i + 1) (depth - 1) label (buffer ++ replacement.bytes)
                      success
                | none => issueLoop sheet y format fuel (i + 1) (depth - 1) label buffer false
          else issueLoop sheet y format fuel (i + 1) (depth - 1) label buffer success
        else if depth = 0 then
          issueLoop sheet y format fuel (i + 1) depth label (buffer ++ [c 0]) success
        else issueLoop sheet y format fuel (i + 1) depth label buffer success
      else .ok (buffer, success)

/-- `format_feedback_issues`: the success flag and `out`, which is freed without success. -/
def formatFeedbackIssues (format : List CString) (sheet : Sheet) : Except Fault (Bool × List CString) :=
  if format.length ≠ sheet.height then .error .assertion
  else do
    let s ← (List.range sheet.height).foldlM (fun (s : Bool × List CString) y => do
        let report := (format.getD y CString.empty).bytes
        let row ← issueLoop sheet y report report.length 0 0 none [] s.1
        .ok (row.2, s.2 ++ [CString.ofBytes row.1]))
      (true, [])
    .ok (s.1, if s.1 then s.2 else [])

end Hand2
