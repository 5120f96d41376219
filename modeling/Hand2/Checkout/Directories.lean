import Hand2.Common
import Hand2.Library.FileCalls
import Hand2.Library.Loops

/-!
# `Checkout.Directories` — `linux_delete_directory` and `linux_copy_directory`

The two recursive walks over directories, and the four calls by which `grade_homework` replaces the tests of a
checkout. A path is the list of its components, so the path of a child is that of its directory with the name
behind it. The recursion is bounded by `fuel`; the program itself has no bound.
-/

namespace Hand2

open FileTree

/-- A file system. -/
abbrev FileSystem := Tree CString (List UInt8)

/-- A path, from the root. -/
abbrev FilePath := List (Component CString)

section Calls

variable (maxLinks : Nat)

/-- `linux_copy_file`. The target is emptied before the size of the source is taken; a source of size zero
    makes `fread` return zero. -/
def linuxCopyFile (fs : FileSystem) (targetPath sourcePath : FilePath) : Bool × FileSystem :=
  match openRead maxLinks fs sourcePath, openWrite maxLinks [] fs targetPath with
  | some source, some (target, fs) =>
      match contentAt fs source with
      | some content =>
          if content.length > 0 then
            match writeAt fs target content with
            | some fs => (true, fs)
            | none    => (false, fs)
          else (false, fs)
      | none => (false, fs)
  | none, some (_, fs) => (false, fs)
  | _, none            => (false, fs)

variable (listing : Listing CString (List UInt8))

/-- The body of the loop of `linux_delete_directory`, with the function itself for the children that are
    directories; the state is `result` and the files. -/
def deleteChild (deleteDirectory : FileSystem → FilePath → Except Fault (Bool × FileSystem)) (dir : FilePath)
    (s : Bool × FileSystem) : Component CString → Except Fault (Bool × FileSystem)
  | .name name => do
      let child := dir ++ [.name name]
      match stat maxLinks s.2 child with
      | none => .ok (false, s.2)
      | some .dir => do
          let out ← deleteDirectory s.2 child
          .ok (s.1 && out.1, out.2)
      | some _ =>
          match unlink maxLinks s.2 child with
          | some fs => .ok (s.1, fs)
          | none    => .ok (false, s.2)
  | _ => .ok s

/-- `linux_delete_directory`. The return value of `rmdir` is not looked at. -/
def linuxDeleteDirectory : Nat → FileSystem → FilePath → Except Fault (Bool × FileSystem)
  | 0,        _,  _   => .error .outOfFuel
  | fuel + 1, fs, dir =>
      match opendir maxLinks fs dir with
      | some dirHandle => do
          let out ← (listing.children fs dirHandle).foldlM (deleteChild maxLinks (linuxDeleteDirectory fuel) dir)
            (true, fs)
          .ok (out.1, (rmdir maxLinks listing out.2 dir).getD out.2)
      | none => .ok (false, fs)

/-- The body of the loop of `linux_copy_directory`. -/
def copyChild (copyDirectory : FileSystem → FilePath → FilePath → Except Fault (Bool × FileSystem))
    (targetDir sourceDir : FilePath) (s : Bool × FileSystem) :
    Component CString → Except Fault (Bool × FileSystem)
  | .name name => do
      let sourceChild := sourceDir ++ [.name name]
      let targetChild := targetDir ++ [.name name]
      match stat maxLinks s.2 sourceChild with
      | none => .ok (false, s.2)
      | some .dir => do
          let out ← copyDirectory s.2 targetChild sourceChild
          .ok (s.1 && out.1, out.2)
      | some _ => .ok (s.1, (linuxCopyFile maxLinks s.2 targetChild sourceChild).2)
  | _ => .ok s

/-- `linux_copy_directory`. -/
def linuxCopyDirectory : Nat → FileSystem → FilePath → FilePath → Except Fault (Bool × FileSystem)
  | 0,        _,  _,         _         => .error .outOfFuel
  | fuel + 1, fs, targetDir, sourceDir =>
      match mkdir maxLinks fs targetDir with
      | some fs =>
          match opendir maxLinks fs sourceDir with
          | some dirHandle =>
              (listing.children fs dirHandle).foldlM
                (copyChild maxLinks (linuxCopyDirectory fuel) targetDir sourceDir) (true, fs)
          | none => .ok (false, fs)
      | none => .ok (false, fs)

/-- The names `test` and `docker`. -/
def testName : CString := CString.lit "test"
def dockerName : CString := CString.lit "docker"

/-- The replacement `grade_homework` makes in the checkout `dir`; no return value is looked at. -/
def replaceTests (fuel : Nat) (fs : FileSystem) (dir templateDir : FilePath) : Except Fault FileSystem := do
  let testDir := dir ++ [.name testName]
  let dockerDir := dir ++ [.name dockerName]
  let templateTestDir := templateDir ++ [.name testName]
  let templateDockerDir := templateDir ++ [.name dockerName]
  let out ← linuxDeleteDirectory maxLinks listing fuel fs testDir
  let out ← linuxDeleteDirectory maxLinks listing fuel out.2 dockerDir
  let out ← linuxCopyDirectory maxLinks listing fuel out.2 testDir templateTestDir
  let out ← linuxCopyDirectory maxLinks listing fuel out.2 dockerDir templateDockerDir
  .ok out.2

end Calls

end Hand2
