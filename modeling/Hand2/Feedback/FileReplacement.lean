import Hand2.Common

/-!
# `Feedback.FileReplacement` — `format_report_by_file_replacement`

Stage one of the feedback. The scanner runs over the template with a counter of open `${` and a pointer
`identifier` behind the last `${` that was opened outside any other. The pointer is `none` while it is
null, else an offset into the template; at a `}` the program ends the identifier there by writing a NUL
over the brace, which it takes back afterwards.
-/

namespace Hand2

/-- The bytes `$`, `{`, `}`, `.` and `/`. -/
def dollar : UInt8 := 36
def openBrace : UInt8 := 123
def closeBrace : UInt8 := 125
def dot : UInt8 := 46
def slash : UInt8 := 47

/-- `identifier[0] == '.' && identifier[1] == '/'`. -/
def isFilePath (identifier : CString) : Bool :=
  identifier.bytes.getD 0 0 = dot ∧ identifier.bytes.getD 1 0 = slash

/-- What is at the paths of a disk: directories, and files with what they hold, which is nothing where there is no
    file. -/
structure Files where
  content : CString → List UInt8
  isDirectory : CString → Bool

namespace Files

/-- No path is a directory. -/
def plain (content : CString → List UInt8) : Files := ⟨content, fun _ => false⟩

/-- `read_entire_file`: a directory opens like a file, but its size is more than there is memory for, and that ends the
    program. -/
def readEntireFile (files : Files) (path : CString) : Except Fault (List UInt8) :=
  if files.isDirectory path then .error .exit else .ok (files.content path)

variable {files : Files} {path : CString}

theorem readEntireFile_ok (h : files.isDirectory path = false) :
    files.readEntireFile path = .ok (files.content path) := by
  rw [readEntireFile, h]
  rfl

theorem readEntireFile_exit (h : files.isDirectory path = true) : files.readEntireFile path = .error .exit := by
  rw [readEntireFile, h]
  rfl

/-- What is read is a file's. -/
theorem eq_of_readEntireFile {out : List UInt8} (h : files.readEntireFile path = .ok out) :
    files.isDirectory path = false ∧ files.content path = out := by
  cases hdirectory : files.isDirectory path with
  | false => exact ⟨rfl, Except.ok.inj ((readEntireFile_ok hdirectory).symm.trans h)⟩
  | true  => cases (readEntireFile_exit hdirectory).symm.trans h

end Files

/-- What is written for an identifier: the content of the file, or the placeholder itself. -/
def replaceIdentifier (files : Files) (dir identifier : CString) : Except Fault (List UInt8) :=
  if isFilePath identifier then do
    let path ← formatString maxPathLen (dir ++ CString.lit "/" ++ identifier)
    files.readEntireFile path
  else .ok ([dollar, openBrace] ++ identifier.bytes ++ [closeBrace])

/-- The `for` loop from position `i`, with `fuel` an upper bound of the iterations left. -/
def reportLoop (files : Files) (dir : CString) (format : List UInt8) :
    Nat → Nat → Nat → Option Nat → List UInt8 → Except Fault (List UInt8)
  | 0,        _, _,     _,          result => .ok result
  | fuel + 1, i, depth, identifier, result =>
      if i < format.length then
        -- reading at the length of the template gives its terminator
        let c := fun k => format.getD (i + k) 0
        if c 0 = dollar ∧ c 1 = dollar then
          reportLoop files dir format fuel (i + 2) depth identifier (result ++ [dollar, dollar])
        else if c 0 = dollar ∧ c 1 = openBrace then
          let identifier := if depth = 0 then some (i + 2) else identifier
          reportLoop files dir format fuel (i + 2) (depth + 1) identifier result
        else if c 0 = closeBrace then
          let depth := depth - 1
          if depth = 0 then
            match identifier with
            | none => .error .nullPointer
            | some at_ => do
                let memory := format.set i 0
                let out ← replaceIdentifier files dir (CString.ofBytes (memory.drop at_))
                reportLoop files dir format fuel (i + 1) depth identifier (result ++ out)
          else reportLoop files dir format fuel (i + 1) depth identifier result
        else if depth = 0 then
          reportLoop files dir format fuel (i + 1) depth identifier (result ++ [c 0])
        else reportLoop files dir format fuel (i + 1) depth identifier result
      else .ok result

/-- `format_report_by_file_replacement`. -/
def formatReportByFileReplacement (files : Files) (format : List UInt8) (dir : CString) :
    Except Fault (List UInt8) :=
  reportLoop files dir format format.length 0 0 none []

end Hand2
