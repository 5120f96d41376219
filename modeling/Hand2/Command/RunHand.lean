import Hand2.Config.Load
import Hand2.Deadline.Cutoff
import Hand2.Library.OptionWords

/-!
# `Command.RunHand` — `run_hand`

The program reads its own options, the name of a command, makes sure that there is a config file, loads it, and reads
the options and arguments of the command. What it calls then, and with what, is an `Invocation`.
-/

namespace Hand2

open OptionWords

/-! ## Numbers -/

/-- `isspace`. -/
def isSpace (c : UInt8) : Bool := c == 32 || (9 ≤ c && c ≤ 13)

/-- The digits at the front, as a number. -/
def digitsValue (bytes : List UInt8) : Int :=
  (bytes.takeWhile isDigit).foldl (fun n c => n * 10 + ((c.toNat : Int) - 48)) 0

/-- `atoi`, with the digits added up in an `int`, as the C library does that the program is linked with. -/
def atoi (s : CString) : Int :=
  cInt (match s.bytes.dropWhile isSpace with
    | 45 :: digits => - digitsValue digits
    | 43 :: digits => digitsValue digits
    | digits       => digitsValue digits)

example : atoi (CString.lit " -12x") = -12 := by decide

/-! ## Config values -/

/-- The enumeration of config values, each with its place. -/
inductive ConfigKey where
  | githubToken
  | googleToken
  | organization
  | taTeam
  | studentTeam
  | feedbackRepo
  | spreadsheet
  | usernameLabel
  | studentIdLabel
  | email
  | gradeCommand
  | gradeThreadCount
  | scoreRelativePath
  | penaltyPerDay
  | weekendsAsOneDay
  deriving DecidableEq

/-- `Config_github_token` and so on. -/
def ConfigKey.index (key : ConfigKey) : Nat := key.ctorIdx

/-- `config->value[..]` of a config that was loaded: no pointer of it is null. -/
def Config.value (config : Config) (key : ConfigKey) : CString := (config key.index).getD CString.empty

/-! ## Options -/

/-- What is printed beside the texts of `load_config` and of the commands. -/
inductive Notice where
  | unknownOption (option : CString)
  | unrecognizedOption (option : CString)
  | tooManyArguments
  | configNotFound
  | configNotLoaded
  | unrecognizedCommand (command : CString)
  | invalidTimeFormat (inDeadline : CString)
  /-- The usage text of the program, or of a command. -/
  | usage (command : Option CString)
  deriving DecidableEq

/-- The variables that the options of a command set. -/
structure CommandOptions where
  showCommandUsage : Bool
  dry : Bool
  onlyRepo : Option CString
  issueInterval : Int
  notices : List Notice
  deriving DecidableEq

def CommandOptions.start : CommandOptions := ⟨false, false, none, 3500, []⟩

/-- `arg[0] == '-'`. -/
def isOption (arg : CString) : Bool := arg.bytes.head? == some 45

abbrev OptionHandling := Handling CString CommandOptions Fault

/-- The last branch of every loop over options. -/
def unrecognized (option : CString) : OptionHandling :=
  .flag fun o => { o with showCommandUsage := true, notices := o.notices ++ [.unrecognizedOption option] }

/-- `--help`, the first branch of every loop over options. -/
def orHelp (other : CString → OptionHandling) (option : CString) : OptionHandling :=
  if compareString option (CString.lit "--help") then .flag fun o => { o with showCommandUsage := true }
  else other option

/-- `--dry`. -/
def orDry (other : CString → OptionHandling) (option : CString) : OptionHandling :=
  if compareString option (CString.lit "--dry") then .flag fun o => { o with dry := true } else other option

/-- `--only-repo`. -/
def orOnlyRepo (other : CString → OptionHandling) (option : CString) : OptionHandling :=
  if compareString option (CString.lit "--only-repo") then .valued fun value o => .ok { o with onlyRepo := value }
  else other option

/-- `issue_interval = atoi(next_arg(&parser))`: the argument may be a null pointer. -/
def setInterval (value : Option CString) (o : CommandOptions) : Except Fault CommandOptions :=
  match value with
  | none       => .error .nullPointer
  | some value => .ok { o with issueInterval := atoi value }

/-- `--interval`. -/
def orInterval (other : CString → OptionHandling) (option : CString) : OptionHandling :=
  if compareString option (CString.lit "--interval") then .valued setInterval else other option

/-- The options of `clean`, `config-check`, `invite-students` and `bulk-clone`. -/
def plainOptions : CString → OptionHandling := orHelp unrecognized

def collectOptions : CString → OptionHandling := orHelp (orOnlyRepo unrecognized)

def gradeOptions : CString → OptionHandling := orHelp (orDry (orOnlyRepo unrecognized))

def announceOptions : CString → OptionHandling := orHelp (orDry (orOnlyRepo (orInterval unrecognized)))

/-- The part that all commands share: the loop over `next_option`, a call of `next_arg` for each of the arguments, and
    one more that must find none. -/
def readCommandLine (handle : CString → OptionHandling) (argCount : Nat) (args : List CString) :
    Except Fault (CommandOptions × List CString) := do
  let (o, rest) ← readOptions isOption handle args .start
  let o := if argCount < rest.length then
      { o with showCommandUsage := true, notices := o.notices ++ [.tooManyArguments] }
    else o
  .ok (o, rest.take argCount)

/-! ## Commands -/

/-- What `run_hand` calls. -/
inductive Invocation where
  | deleteCacheAndLog
  | configCheck (config : Config)
  | inviteStudents (path githubToken organization team : CString)
  | collectHomework (title outPath : CString) (deadline cutoff penaltyPerDay isWeekendsOneDay : Int)
      (onlyRepo : Option CString) (githubToken organization googleToken spreadsheetId studentLabel : CString)
  | bulkClone (outDir title : CString) (deadline cutoff : Int) (template : Option (CString × CString))
      (githubToken organization : CString)
  | gradeHomework (title outPath : CString) (deadline cutoff : Int)
      (templateRepo templateBranch feedbackRepo command scoreRelativePath : CString) (dry : Bool) (threadCount : Int)
      (onlyRepo : Option CString)
      (githubToken organization email googleToken spreadsheetId studentLabel idLabel : CString)
  | announceGrade (title feedbackRepo : CString) (dry : Bool) (onlyRepo : Option CString) (issueInterval : Int)
      (githubToken organization googleToken spreadsheetId studentLabel idLabel : CString)

/-- What a run prints, and what it calls. -/
abbrev Called := List Notice × Option Invocation

/-- The usage text, and no call. -/
def showUsage (command : CString) (o : CommandOptions) : Called := (o.notices ++ [.usage (some command)], none)

/-- A slash at the end of `out_dir` is dropped. -/
def dropSlash (outDir : CString) : CString :=
  if outDir.bytes.getLast? = some 47 ∨ outDir.bytes.getLast? = some 92 then CString.ofBytes outDir.bytes.dropLast
  else outDir

section Commands

variable (config : Config)

/-- The deadline and the cutoff, as `collect-homework`, `bulk-clone` and `grade-homework` read them, and what is done
    with them if the deadline is one. -/
def withDeadline (inDeadline cutoffDays : CString) (notices : List Notice) (call : Int → Int → Invocation) : Called :=
  let deadline := parseTime inDeadline timeZoneUtc8
  let cutoff := calculateCutoff deadline (atoi cutoffDays) (atoi (config.value .weekendsAsOneDay))
  if deadline = 0 then (notices ++ [.invalidTimeFormat inDeadline], none) else (notices, some (call deadline cutoff))

/-- `clean` and `config-check`, which have no arguments. -/
def runPlain (command : CString) (call : Invocation) (args : List CString) : Except Fault Called := do
  let (o, _) ← readCommandLine plainOptions 0 args
  .ok (if o.showCommandUsage then showUsage command o else (o.notices, some call))

def runInviteStudents (command : CString) (args : List CString) : Except Fault Called := do
  let (o, arguments) ← readCommandLine plainOptions 1 args
  .ok (match o.showCommandUsage, arguments with
    | false, [inputPath] => (o.notices, some (.inviteStudents inputPath (config.value .githubToken)
        (config.value .organization) (config.value .studentTeam)))
    | _, _ => showUsage command o)

def runCollectHomework (command : CString) (args : List CString) : Except Fault Called := do
  let (o, arguments) ← readCommandLine collectOptions 4 args
  .ok (match o.showCommandUsage, arguments with
    | false, [title, inDeadline, cutoffDays, outPath] =>
        withDeadline config inDeadline cutoffDays o.notices fun deadline cutoff =>
          .collectHomework title outPath deadline cutoff (atoi (config.value .penaltyPerDay))
            (atoi (config.value .weekendsAsOneDay)) o.onlyRepo (config.value .githubToken)
            (config.value .organization) (config.value .googleToken) (config.value .spreadsheet)
            (config.value .usernameLabel)
    | _, _ => showUsage command o)

/-- `bulk-clone`: the template repository and its branch come together or not at all. -/
def runBulkClone (command : CString) (args : List CString) : Except Fault Called := do
  let (o, arguments) ← readCommandLine plainOptions 6 args
  let clone := fun (outDir title inDeadline cutoffDays : CString) (template : Option (CString × CString)) =>
    withDeadline config inDeadline cutoffDays o.notices fun deadline cutoff =>
      .bulkClone (dropSlash outDir) title deadline cutoff template (config.value .githubToken)
        (config.value .organization)
  .ok (match o.showCommandUsage, arguments with
    | false, [outDir, title, inDeadline, cutoffDays] => clone outDir title inDeadline cutoffDays none
    | false, [outDir, title, inDeadline, cutoffDays, templateRepo, templateBranch] =>
        clone outDir title inDeadline cutoffDays (some (templateRepo, templateBranch))
    | _, _ => showUsage command o)

def runGradeHomework (command : CString) (args : List CString) : Except Fault Called := do
  let (o, arguments) ← readCommandLine gradeOptions 6 args
  .ok (match o.showCommandUsage, arguments with
    | false, [title, templateRepo, templateBranch, inDeadline, cutoffDays, outPath] =>
        withDeadline config inDeadline cutoffDays o.notices fun deadline cutoff =>
          .gradeHomework title outPath deadline cutoff templateRepo templateBranch (config.value .feedbackRepo)
            (config.value .gradeCommand) (config.value .scoreRelativePath) o.dry
            (atoi (config.value .gradeThreadCount)) o.onlyRepo (config.value .githubToken)
            (config.value .organization) (config.value .email) (config.value .googleToken)
            (config.value .spreadsheet) (config.value .usernameLabel) (config.value .studentIdLabel)
    | _, _ => showUsage command o)

def runAnnounceGrade (command : CString) (args : List CString) : Except Fault Called := do
  let (o, arguments) ← readCommandLine announceOptions 1 args
  .ok (match o.showCommandUsage, arguments with
    | false, [title] => (o.notices, some (.announceGrade title (config.value .feedbackRepo) o.dry o.onlyRepo
        o.issueInterval (config.value .githubToken) (config.value .organization) (config.value .googleToken)
        (config.value .spreadsheet) (config.value .usernameLabel) (config.value .studentIdLabel)))
    | _, _ => showUsage command o)

/-- The comparisons of `command`. -/
def runCommand (command : CString) (args : List CString) : Except Fault Called :=
  if compareString command (CString.lit "clean") then runPlain command .deleteCacheAndLog args
  else if compareString command (CString.lit "config-check") then runPlain command (.configCheck config) args
  else if compareString command (CString.lit "invite-students") then runInviteStudents config command args
  else if compareString command (CString.lit "collect-homework") then runCollectHomework config command args
  else if compareString command (CString.lit "bulk-clone") then runBulkClone config command args
  else if compareString command (CString.lit "grade-homework") then runGradeHomework config command args
  else if compareString command (CString.lit "announce-grade") then runAnnounceGrade config command args
  else .ok ([.unrecognizedCommand command], none)

end Commands

/-! ## The program -/

/-- The variables that the options of the program set. -/
structure ProgramOptions where
  showUsage : Bool
  log : Bool
  notices : List Notice

/-- The loop over the options of the program. -/
def programOption (option : CString) : Handling CString ProgramOptions Fault :=
  if compareString option (CString.lit "--help") then .flag fun o => { o with showUsage := true }
  else if compareString option (CString.lit "--log") then .flag fun o => { o with log := true }
  else .flag fun o => { o with showUsage := true, notices := o.notices ++ [.unknownOption option] }

/-- `ensure_config_exists`: whether there was a config file, and the file afterwards; `store` is what writing one
    leaves. -/
def ensureConfigExists (store : List UInt8 → Option (List UInt8)) (defaultConfig : List UInt8)
    (file : Option (List UInt8)) : Bool × Option (List UInt8) :=
  match file with
  | some content => (true, some content)
  | none         => (false, store defaultConfig)

/-- `g_default_config`. -/
def defaultConfig : List UInt8 :=
  ([
    "# See how to create a GitHub classic personal access token at:",
    "# https://docs.github.com/en/authentication/keeping-your-account-and-data-secure/" ++
      "managing-your-personal-access-tokens#creating-a-personal-access-token-classic",
    "github_access_token = \"your-github-personal-access-token\"",
    "",
    "# See how to create a Google API key at:",
    "# https://support.google.com/googleapi/answer/6158862",
    "google_api_key = \"your-google-api-key\"",
    "",
    "# The course's GitHub organization",
    "# (https://github.com/<github-organization>)",
    "organization = \"github-organization\"",
    "",
    "# TA team slug in the GitHub organization",
    "# (https://github.com/orgs/<github-organization>/teams/<ta-team-slug>",
    "ta_team = \"ta-team-slug\"",
    "",
    "# Student team slug in the GitHub organization",
    "# (https://github.com/orgs/<github-organization>/teams/<student-team-slug>",
    "student_team = \"student-team-slug\"",
    "",
    "# Repository that stores feedbacks for students before announcing grades",
    "# (https://github.com/<github-organization>/<hw-feedback>)",
    "feedback_repository = \"hw-feedback\"",
    "",
    "# Google spreadsheet for organizing students' grades, it must be visible to the public",
    "# (https://docs.google.com/spreadsheets/d/<spreadsheet-id>)",
    "spreadsheet = \"spreadsheet-id\"",
    "",
    "# Label corresponding to GitHub username (labels are the first row in the homework sheet)",
    "username_label = \"github_handle\"",
    "",
    "# Label corresponding to student id (labels are the first row in the homework sheet)",
    "student_id_label = \"student_id\"",
    "",
    "# An email linked to your GitHub account, it's used to commit feedbacks to <feedback_repository> " ++
      "when grading homework",
    "email = \"your@github.email\"",
    "",
    "# Command executed under the homework directory for grading",
    "grade_command = 'make activate ARGS=\"make autograde\"'",
    "",
    "# Number of threads used for parallel grading",
    "grade_thread = \"8\"",
    "",
    "# Relative path to the score file, the score file is generated by <grade_command>",
    "score_relative_path = \"./test/result/score.txt\"",
    "",
    "# Penalty received per day for late submission (in percentage)",
    "penalty_per_day = \"15\"",
    "",
    "# If not 0, weekends are considered as one day when calculating penalty",
    "weekends_as_one_day = \"1\""] : List String).flatMap fun line => (CString.lit line).bytes ++ [newline]

/-- What a run of the program did. -/
structure HandRun where
  log : Bool
  configFile : Option (List UInt8)
  called : Called

/-- `"%s/config.txt"`. -/
def configPath (rootDir : CString) : CString := rootDir ++ CString.lit "/config.txt"

/-- `"%02d"`. -/
def zeroPadded (x : Int) : List UInt8 := if 0 ≤ x ∧ x < 10 then 48 :: decimal x else decimal x

/-- `"%s/%d-%02d-%02d_%02d-%02d-%02d.log"`. -/
def logFilePath (logDir : CString) (time : Tm) : CString :=
  logDir ++ CString.lit "/" ++ CString.ofBytes (decimal (cInt (time.year + 1900))) ++ CString.lit "-" ++
    CString.ofBytes (zeroPadded (cInt (time.mon + 1))) ++ CString.lit "-" ++ CString.ofBytes (zeroPadded time.mday) ++
    CString.lit "_" ++ CString.ofBytes (zeroPadded time.hour) ++ CString.lit "-" ++
    CString.ofBytes (zeroPadded time.min) ++ CString.lit "-" ++ CString.ofBytes (zeroPadded time.sec) ++
    CString.lit ".log"

/-- Where the program is, when it is run, its config file, and what writing one leaves. -/
structure HandWorld where
  rootDir : CString
  logDir : CString
  time : Tm
  configFile : Option (List UInt8)
  store : List UInt8 → Option (List UInt8)

/-- `run_hand`. -/
def runHand (fuel : Nat) (w : HandWorld) (args : List CString) : Except Fault HandRun := do
  let _ ← formatString maxPathLen (configPath w.rootDir)
  let _ ← formatString maxPathLen (logFilePath w.logDir w.time)
  let (o, rest) ← readOptions isOption programOption args ⟨false, false, []⟩
  match rest with
  | [] => .ok ⟨o.log, w.configFile, o.notices ++ [.usage none], none⟩
  | command :: rest =>
      let (found, file) := ensureConfigExists w.store defaultConfig w.configFile
      if found = false ∨ o.showUsage then
        .ok ⟨o.log, file, o.notices ++ (if found then [] else [.configNotFound]) ++ [.usage none], none⟩
      else
        let (loaded, config) ← loadConfig fuel file
        if loaded then
          let (notices, invocation) ← runCommand config command rest
          .ok ⟨o.log, file, o.notices ++ notices, invocation⟩
        else .ok ⟨o.log, file, o.notices ++ [.configNotLoaded], none⟩

end Hand2
