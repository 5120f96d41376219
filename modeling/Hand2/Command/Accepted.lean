import Hand2.Command.RunHand
import Hand2.Library.Loops

/-!
# `Command.Accepted` — which command lines run a command

A command is called if and only if the line is written as the usage texts say (`Written`): the options of the command,
each with its word, then its arguments, the first of which does not look like an option. On any other line nothing is
called, and some text is printed.
-/

namespace Hand2

open OptionWords

/-! ## Options that are written down -/

/-- An option of a command. -/
inductive CommandItem where
  | dry
  | onlyRepo (name : CString)
  | interval (milliseconds : CString)

/-- As it stands on the line. -/
def CommandItem.item : CommandItem → Item CString
  | .dry                   => .alone (CString.lit "--dry")
  | .onlyRepo name         => .followed (CString.lit "--only-repo") name
  | .interval milliseconds => .followed (CString.lit "--interval") milliseconds

def CommandItem.words (c : CommandItem) : List CString := c.item.words

/-- What it sets. -/
def CommandItem.set (o : CommandOptions) : CommandItem → CommandOptions
  | .dry                   => { o with dry := true }
  | .onlyRepo name         => { o with onlyRepo := some name }
  | .interval milliseconds => { o with issueInterval := atoi milliseconds }

/-- The variables behind some options; of two that set the same, the last one counts. -/
def optionsOf (items : List CommandItem) : CommandOptions := items.foldl CommandItem.set .start

/-- The loop of a command, by the options it knows. -/
def optionsFor (dry onlyRepo interval : Bool) : CString → OptionHandling :=
  orHelp ((if dry then orDry else id) ((if onlyRepo then orOnlyRepo else id)
    ((if interval then orInterval else id) unrecognized)))

theorem plainOptions_eq : plainOptions = optionsFor false false false := rfl

theorem collectOptions_eq : collectOptions = optionsFor false true false := rfl

theorem gradeOptions_eq : gradeOptions = optionsFor true true false := rfl

theorem announceOptions_eq : announceOptions = optionsFor true true true := rfl

/-- The option is one of them. -/
def CommandItem.Known (dry onlyRepo interval : Bool) : CommandItem → Prop
  | .dry        => dry = true
  | .onlyRepo _ => onlyRepo = true
  | .interval _ => interval = true

section Known

variable {dry onlyRepo interval : Bool} {o o' : CommandOptions}

/-- Each option has its branch, in this order. -/
theorem optionsFor_eq (option : CString) :
    optionsFor dry onlyRepo interval option =
      if option = CString.lit "--help" then .flag fun o => { o with showCommandUsage := true }
      else if dry = true ∧ option = CString.lit "--dry" then .flag fun o => { o with dry := true }
      else if onlyRepo = true ∧ option = CString.lit "--only-repo" then
        .valued fun value o => .ok { o with onlyRepo := value }
      else if interval = true ∧ option = CString.lit "--interval" then .valued setInterval
      else unrecognized option := by
  cases dry <;> cases onlyRepo <;> cases interval <;>
    simp [optionsFor, orHelp, orDry, orOnlyRepo, orInterval]

theorem CommandItem.fits {c : CommandItem} (h : c.Known dry onlyRepo interval) :
    c.item.Fits isOption (optionsFor dry onlyRepo interval) := by
  cases c with
  | dry =>
      refine ⟨by decide, fun o => { o with dry := true }, ?_⟩
      rw [optionsFor_eq, if_neg (by decide), if_pos ⟨h, rfl⟩]
  | onlyRepo name =>
      refine ⟨by decide, fun value o => .ok { o with onlyRepo := value }, ?_⟩
      rw [optionsFor_eq, if_neg (by decide), if_neg (fun hd => absurd hd.2 (by decide)), if_pos ⟨h, rfl⟩]
  | interval milliseconds =>
      refine ⟨by decide, setInterval, ?_⟩
      rw [optionsFor_eq, if_neg (by decide), if_neg (fun hd => absurd hd.2 (by decide)),
        if_neg (fun hr => absurd hr.2 (by decide)), if_pos ⟨h, rfl⟩]

theorem CommandItem.apply {c : CommandItem} (h : c.Known dry onlyRepo interval) (o : CommandOptions) :
    c.item.apply (optionsFor dry onlyRepo interval) o = .ok (c.set o) := by
  cases c with
  | dry =>
      simp only [CommandItem.item, Item.apply]
      rw [optionsFor_eq, if_neg (by decide), if_pos ⟨h, rfl⟩]
      rfl
  | onlyRepo name =>
      simp only [CommandItem.item, Item.apply]
      rw [optionsFor_eq, if_neg (by decide), if_neg (fun hd => absurd hd.2 (by decide)), if_pos ⟨h, rfl⟩]
      rfl
  | interval milliseconds =>
      simp only [CommandItem.item, Item.apply]
      rw [optionsFor_eq, if_neg (by decide), if_neg (fun hd => absurd hd.2 (by decide)),
        if_neg (fun hr => absurd hr.2 (by decide)), if_pos ⟨h, rfl⟩]
      rfl

/-- Everything else asks for the usage text. -/
theorem known_or_usage {item : Item CString} (hfits : item.Fits isOption (optionsFor dry onlyRepo interval))
    (happly : item.apply (optionsFor dry onlyRepo interval) o = .ok o') :
    (∃ c : CommandItem, c.Known dry onlyRepo interval ∧ item = c.item) ∨ o'.showCommandUsage = true := by
  cases item with
  | alone option =>
      obtain ⟨-, f, hf⟩ := hfits
      simp only [Item.apply] at happly
      rw [optionsFor_eq] at hf happly
      split at hf
      · next hhelp =>
          rw [if_pos hhelp] at happly
          cases happly
          exact .inr rfl
      · next hhelp =>
          rw [if_neg hhelp] at happly
          split at hf
          · next hdry => exact .inl ⟨.dry, hdry.1, by rw [hdry.2]; rfl⟩
          · next hdry =>
              rw [if_neg hdry] at happly
              split at hf
              · cases hf
              · next hrepo =>
                  rw [if_neg hrepo] at happly
                  split at hf
                  · cases hf
                  · next hinterval =>
                      rw [if_neg hinterval] at happly
                      cases happly
                      exact .inr rfl
  | followed option value =>
      obtain ⟨-, f, hf⟩ := hfits
      rw [optionsFor_eq] at hf
      split_ifs at hf with hhelp hdry hrepo hinterval
      · exact .inl ⟨.onlyRepo value, hrepo.1, by rw [hrepo.2]; rfl⟩
      · exact .inl ⟨.interval value, hinterval.1, by rw [hinterval.2]; rfl⟩
      · cases hf

/-- No option takes that back. -/
theorem usage_stays {item : Item CString} (hfits : item.Fits isOption (optionsFor dry onlyRepo interval))
    (happly : item.apply (optionsFor dry onlyRepo interval) o = .ok o') (h : o.showCommandUsage = true) :
    o'.showCommandUsage = true := by
  rcases known_or_usage hfits happly with ⟨c, hknown, rfl⟩ | husage
  · rw [CommandItem.apply hknown] at happly
    cases happly
    cases c <;> exact h
  · exact husage

theorem usage_stays_fold {items : List (Item CString)}
    (hfits : ∀ item ∈ items, item.Fits isOption (optionsFor dry onlyRepo interval))
    (hfold : items.foldlM (Item.apply (optionsFor dry onlyRepo interval)) o = .ok o')
    (h : o.showCommandUsage = true) : o'.showCommandUsage = true := by
  induction items generalizing o with
  | nil =>
      cases hfold
      exact h
  | cons item items ih =>
      rw [List.foldlM_cons] at hfold
      cases happly : item.apply (optionsFor dry onlyRepo interval) o with
      | error e =>
          rw [happly] at hfold
          cases hfold
      | ok o'' =>
          rw [happly] at hfold
          exact ih (fun item hitem => hfits item (List.mem_cons_of_mem _ hitem)) hfold
            (usage_stays (hfits item List.mem_cons_self) happly h)

/-- Options that do not ask for the usage text are known ones, and do what these do. -/
theorem exists_commandItems {items : List (Item CString)}
    (hfits : ∀ item ∈ items, item.Fits isOption (optionsFor dry onlyRepo interval))
    (hfold : items.foldlM (Item.apply (optionsFor dry onlyRepo interval)) o = .ok o')
    (h : o'.showCommandUsage = false) :
    ∃ cs : List CommandItem, (∀ c ∈ cs, c.Known dry onlyRepo interval) ∧ items = cs.map CommandItem.item ∧
      o' = cs.foldl CommandItem.set o := by
  induction items generalizing o with
  | nil =>
      cases hfold
      exact ⟨[], nofun, rfl, rfl⟩
  | cons item items ih =>
      rw [List.foldlM_cons] at hfold
      cases happly : item.apply (optionsFor dry onlyRepo interval) o with
      | error e =>
          rw [happly] at hfold
          cases hfold
      | ok o'' =>
          rw [happly] at hfold
          have hrest := fun item hitem => hfits item (List.mem_cons_of_mem _ hitem)
          rcases known_or_usage (hfits item List.mem_cons_self) happly with ⟨c, hknown, rfl⟩ | husage
          · obtain ⟨cs, hall, rfl, hset⟩ := ih hrest hfold
            rw [CommandItem.apply hknown] at happly
            cases happly
            exact ⟨c :: cs, List.forall_mem_cons.mpr ⟨hknown, hall⟩, rfl, hset⟩
          · have hstill := usage_stays_fold hrest hfold husage
            rw [h] at hstill
            cases hstill

theorem fold_commandItems {cs : List CommandItem} (h : ∀ c ∈ cs, c.Known dry onlyRepo interval) (o : CommandOptions) :
    (cs.map CommandItem.item).foldlM (Item.apply (optionsFor dry onlyRepo interval)) o
      = .ok (cs.foldl CommandItem.set o) := by
  induction cs generalizing o with
  | nil => rfl
  | cons c cs ih =>
      rw [List.map_cons, List.foldlM_cons, CommandItem.apply (h c List.mem_cons_self)]
      exact ih (fun c hc => h c (List.mem_cons_of_mem _ hc)) (c.set o)

theorem foldl_set_usage (cs : List CommandItem) (o : CommandOptions) :
    (cs.foldl CommandItem.set o).showCommandUsage = o.showCommandUsage ∧
      (cs.foldl CommandItem.set o).notices = o.notices := by
  induction cs generalizing o with
  | nil => exact ⟨rfl, rfl⟩
  | cons c cs ih =>
      obtain ⟨husage, hnotices⟩ := ih (c.set o)
      cases c <;> exact ⟨husage, hnotices⟩

end Known

/-! ## Lines that are written as the usage texts say -/

section Line

variable {dry onlyRepo interval : Bool} {o : CommandOptions} {args arguments : List CString} {argCount : Nat}

/-- Without options that take a word, none can miss it. -/
theorem not_dangles {last : Item CString} (h : onlyRepo = false ∧ interval = false) :
    ¬ last.Dangles isOption (optionsFor dry onlyRepo interval) := by
  intro hdangles
  cases last with
  | followed option value => exact hdangles
  | alone option =>
      obtain ⟨-, f, hf⟩ := hdangles
      rw [optionsFor_eq, h.1, h.2] at hf
      split_ifs at hf with _ _ hrepo hinterval
      · exact absurd hrepo.1 nofun
      · exact absurd hinterval.1 nofun
      · cases hf

/-- **What a command reads**, unless it prints its usage text. -/
theorem readCommandLine_iff {handle : CString → OptionHandling} (hhandle : handle = optionsFor dry onlyRepo interval)
    (hsome : arguments ≠ [] ∨ (onlyRepo = false ∧ interval = false)) :
    (readCommandLine handle argCount args = .ok (o, arguments) ∧ o.showCommandUsage = false) ↔
      ∃ cs : List CommandItem, (∀ c ∈ cs, c.Known dry onlyRepo interval) ∧
        args = cs.flatMap CommandItem.words ++ arguments ∧ Stops isOption arguments ∧ arguments.length ≤ argCount ∧
        o = optionsOf cs := by
  subst hhandle
  unfold readCommandLine
  constructor
  · rintro ⟨hline, husage⟩
    cases hread : readOptions isOption (optionsFor dry onlyRepo interval) args .start with
    | error e =>
        rw [hread] at hline
        cases hline
    | ok out =>
        obtain ⟨before, rest⟩ := out
        rw [hread] at hline
        obtain ⟨hbefore, hrest⟩ := Prod.mk.inj (Except.ok.inj hline)
        -- with too many arguments the usage text is printed
        have hfew : ¬ argCount < rest.length := by
          intro hmany
          rw [if_pos hmany] at hbefore
          rw [← hbefore] at husage
          cases husage
        rw [if_neg hfew] at hbefore
        rw [List.take_of_length_le (Nat.not_lt.mp hfew)] at hrest
        subst hbefore hrest
        obtain ⟨items, hall, ⟨hstops, rfl, hfold⟩ | ⟨last, hdangles, rfl, -, -⟩⟩ := readOptions_iff.mp hread
        · obtain ⟨cs, hknown, rfl, hset⟩ := exists_commandItems hall hfold husage
          refine ⟨cs, hknown, ?_, hstops, Nat.not_lt.mp hfew, hset⟩
          rw [List.flatMap_map]
          rfl
        · rcases hsome with hne | hplain
          · exact absurd rfl hne
          · exact absurd hdangles (not_dangles hplain)
  · rintro ⟨cs, hknown, rfl, hstops, hfew, rfl⟩
    have hread : readOptions isOption (optionsFor dry onlyRepo interval)
        (cs.flatMap CommandItem.words ++ arguments) .start = .ok (optionsOf cs, arguments) := by
      refine readOptions_iff.mpr ⟨cs.map CommandItem.item, ?_, .inl ⟨hstops, ?_, fold_commandItems hknown _⟩⟩
      · intro item hitem
        obtain ⟨c, hc, rfl⟩ := List.mem_map.mp hitem
        exact CommandItem.fits (hknown c hc)
      · rw [List.flatMap_map]
        rfl
    rw [hread]
    refine ⟨?_, (foldl_set_usage cs .start).1⟩
    show Except.ok _ = Except.ok _
    rw [if_neg (Nat.not_lt.mpr hfew), List.take_of_length_le hfew]

theorem known_nothing {cs : List CommandItem} (h : ∀ c ∈ cs, c.Known false false false) : cs = [] := by
  cases cs with
  | nil => rfl
  | cons c cs =>
      have hc := h c List.mem_cons_self
      cases c <;> cases hc

end Line

/-- The cutoff of a deadline. -/
def cutoffOf (config : Config) (inDeadline cutoffDays : CString) : Int :=
  calculateCutoff (parseTime inDeadline timeZoneUtc8) (atoi cutoffDays) (atoi (config.value .weekendsAsOneDay))

/-- The name of a command, what stands behind it, and what is called. -/
inductive Written (config : Config) : CString → List CString → Invocation → Prop where
  | clean : Written config (CString.lit "clean") [] .deleteCacheAndLog
  | configCheck : Written config (CString.lit "config-check") [] (.configCheck config)
  | inviteStudents {inputPath : CString} (hpath : isOption inputPath = false) :
      Written config (CString.lit "invite-students") [inputPath]
        (.inviteStudents inputPath (config.value .githubToken) (config.value .organization)
          (config.value .studentTeam))
  | collectHomework {cs : List CommandItem} {title inDeadline cutoffDays outPath : CString}
      (hcs : ∀ c ∈ cs, c.Known false true false) (htitle : isOption title = false)
      (hdeadline : parseTime inDeadline timeZoneUtc8 ≠ 0) :
      Written config (CString.lit "collect-homework")
        (cs.flatMap CommandItem.words ++ [title, inDeadline, cutoffDays, outPath])
        (.collectHomework title outPath (parseTime inDeadline timeZoneUtc8) (cutoffOf config inDeadline cutoffDays)
          (atoi (config.value .penaltyPerDay)) (atoi (config.value .weekendsAsOneDay)) (optionsOf cs).onlyRepo
          (config.value .githubToken) (config.value .organization) (config.value .googleToken)
          (config.value .spreadsheet) (config.value .usernameLabel))
  | bulkClone {outDir title inDeadline cutoffDays : CString} (hdir : isOption outDir = false)
      (hdeadline : parseTime inDeadline timeZoneUtc8 ≠ 0) :
      Written config (CString.lit "bulk-clone") [outDir, title, inDeadline, cutoffDays]
        (.bulkClone (dropSlash outDir) title (parseTime inDeadline timeZoneUtc8)
          (cutoffOf config inDeadline cutoffDays) none (config.value .githubToken) (config.value .organization))
  | bulkCloneTemplate {outDir title inDeadline cutoffDays templateRepo templateBranch : CString}
      (hdir : isOption outDir = false) (hdeadline : parseTime inDeadline timeZoneUtc8 ≠ 0) :
      Written config (CString.lit "bulk-clone") [outDir, title, inDeadline, cutoffDays, templateRepo, templateBranch]
        (.bulkClone (dropSlash outDir) title (parseTime inDeadline timeZoneUtc8)
          (cutoffOf config inDeadline cutoffDays) (some (templateRepo, templateBranch)) (config.value .githubToken)
          (config.value .organization))
  | gradeHomework {cs : List CommandItem}
      {title templateRepo templateBranch inDeadline cutoffDays outPath : CString}
      (hcs : ∀ c ∈ cs, c.Known true true false) (htitle : isOption title = false)
      (hdeadline : parseTime inDeadline timeZoneUtc8 ≠ 0) :
      Written config (CString.lit "grade-homework")
        (cs.flatMap CommandItem.words ++ [title, templateRepo, templateBranch, inDeadline, cutoffDays, outPath])
        (.gradeHomework title outPath (parseTime inDeadline timeZoneUtc8) (cutoffOf config inDeadline cutoffDays)
          templateRepo templateBranch (config.value .feedbackRepo) (config.value .gradeCommand)
          (config.value .scoreRelativePath) (optionsOf cs).dry (atoi (config.value .gradeThreadCount))
          (optionsOf cs).onlyRepo (config.value .githubToken) (config.value .organization) (config.value .email)
          (config.value .googleToken) (config.value .spreadsheet) (config.value .usernameLabel)
          (config.value .studentIdLabel))
  | announceGrade {cs : List CommandItem} {title : CString} (hcs : ∀ c ∈ cs, c.Known true true true)
      (htitle : isOption title = false) :
      Written config (CString.lit "announce-grade") (cs.flatMap CommandItem.words ++ [title])
        (.announceGrade title (config.value .feedbackRepo) (optionsOf cs).dry (optionsOf cs).onlyRepo
          (optionsOf cs).issueInterval (config.value .githubToken) (config.value .organization)
          (config.value .googleToken) (config.value .spreadsheet) (config.value .usernameLabel)
          (config.value .studentIdLabel))

/-! ## One command after the other -/

section Commands

variable {config : Config} {command : CString} {args : List CString} {notices : List Notice} {inv : Invocation}

theorem showUsage_ne {o : CommandOptions} : showUsage command o ≠ (notices, some inv) := nofun

theorem withDeadline_iff {inDeadline cutoffDays : CString} {before : List Notice} {call : Int → Int → Invocation} :
    withDeadline config inDeadline cutoffDays before call = (notices, some inv) ↔
      parseTime inDeadline timeZoneUtc8 ≠ 0 ∧ notices = before ∧
        inv = call (parseTime inDeadline timeZoneUtc8) (cutoffOf config inDeadline cutoffDays) := by
  unfold withDeadline
  dsimp only
  split
  · next hzero => exact iff_of_false nofun (fun h => h.1 hzero)
  · next hne =>
      rw [Prod.mk.injEq, Option.some.injEq]
      constructor
      · rintro ⟨rfl, rfl⟩
        exact ⟨hne, rfl, rfl⟩
      · rintro ⟨-, rfl, rfl⟩
        exact ⟨rfl, rfl⟩

theorem stops_iff {word : CString} {rest : List CString} : Stops isOption (word :: rest) ↔ isOption word = false := by
  simp [Stops]

theorem optionsOf_notices (cs : List CommandItem) : (optionsOf cs).notices = [] := (foldl_set_usage cs .start).2

theorem runPlain_iff {call : Invocation} :
    runPlain command call args = .ok (notices, some inv) ↔ notices = [] ∧ args = [] ∧ inv = call := by
  constructor
  · intro h
    obtain ⟨⟨o, arguments⟩, hline, h⟩ := Loops.bind_eq_ok h
    have hout := Except.ok.inj h
    split at hout
    · exact absurd hout showUsage_ne
    · next husage =>
        obtain ⟨cs, hknown, rfl, -, hfew, rfl⟩ := (readCommandLine_iff plainOptions_eq (.inr ⟨rfl, rfl⟩)).mp
          ⟨hline, by simpa using husage⟩
        cases hout
        obtain rfl := known_nothing hknown
        obtain rfl := List.eq_nil_of_length_eq_zero (Nat.le_zero.mp hfew)
        exact ⟨rfl, rfl, rfl⟩
  · rintro ⟨rfl, rfl, rfl⟩
    rfl

/-- The line of a command with arguments, once it was read. -/
theorem read_of_known {dry onlyRepo interval : Bool} {handle : CString → OptionHandling}
    (hhandle : handle = optionsFor dry onlyRepo interval) (argCount : Nat) {cs : List CommandItem}
    (hcs : ∀ c ∈ cs, c.Known dry onlyRepo interval) {first : CString} (hfirst : isOption first = false)
    (rest : List CString) (hcount : (first :: rest).length ≤ argCount) :
    readCommandLine handle argCount (cs.flatMap CommandItem.words ++ first :: rest)
      = .ok (optionsOf cs, first :: rest) ∧ (optionsOf cs).showCommandUsage = false ∧ (optionsOf cs).notices = [] := by
  obtain ⟨hline, husage⟩ := (readCommandLine_iff hhandle (.inl (List.cons_ne_nil first rest))).mpr
    ⟨cs, hcs, rfl, stops_iff.mpr hfirst, hcount, rfl⟩
  exact ⟨hline, husage, optionsOf_notices cs⟩

theorem written_of_inviteStudents
    (h : runInviteStudents config (CString.lit "invite-students") args = .ok (notices, some inv)) :
    notices = [] ∧ Written config (CString.lit "invite-students") args inv := by
  obtain ⟨⟨o, arguments⟩, hline, h⟩ := Loops.bind_eq_ok h
  have hout := Except.ok.inj h
  split at hout
  · next inputPath husage =>
      obtain ⟨cs, hknown, rfl, hstops, -, rfl⟩ := (readCommandLine_iff plainOptions_eq (.inr ⟨rfl, rfl⟩)).mp
        ⟨hline, husage⟩
      obtain rfl := known_nothing hknown
      cases hout
      exact ⟨rfl, .inviteStudents (stops_iff.mp hstops)⟩
  · exact absurd hout showUsage_ne

theorem written_of_collectHomework
    (h : runCollectHomework config (CString.lit "collect-homework") args = .ok (notices, some inv)) :
    notices = [] ∧ Written config (CString.lit "collect-homework") args inv := by
  obtain ⟨⟨o, arguments⟩, hline, h⟩ := Loops.bind_eq_ok h
  have hout := Except.ok.inj h
  split at hout
  · next title inDeadline cutoffDays outPath husage =>
      obtain ⟨cs, hknown, rfl, hstops, -, rfl⟩ :=
        (readCommandLine_iff collectOptions_eq (.inl (List.cons_ne_nil _ _))).mp ⟨hline, husage⟩
      obtain ⟨hdeadline, rfl, rfl⟩ := withDeadline_iff.mp hout
      exact ⟨optionsOf_notices cs, .collectHomework hknown (stops_iff.mp hstops) hdeadline⟩
  · exact absurd hout showUsage_ne

theorem written_of_bulkClone (h : runBulkClone config (CString.lit "bulk-clone") args = .ok (notices, some inv)) :
    notices = [] ∧ Written config (CString.lit "bulk-clone") args inv := by
  obtain ⟨⟨o, arguments⟩, hline, h⟩ := Loops.bind_eq_ok h
  have hout := Except.ok.inj h
  split at hout
  · next outDir title inDeadline cutoffDays husage =>
      obtain ⟨cs, hknown, rfl, hstops, -, rfl⟩ :=
        (readCommandLine_iff plainOptions_eq (.inl (List.cons_ne_nil _ _))).mp ⟨hline, husage⟩
      obtain ⟨hdeadline, rfl, rfl⟩ := withDeadline_iff.mp hout
      obtain rfl := known_nothing hknown
      exact ⟨rfl, .bulkClone (stops_iff.mp hstops) hdeadline⟩
  · next outDir title inDeadline cutoffDays templateRepo templateBranch husage =>
      obtain ⟨cs, hknown, rfl, hstops, -, rfl⟩ :=
        (readCommandLine_iff plainOptions_eq (.inl (List.cons_ne_nil _ _))).mp ⟨hline, husage⟩
      obtain ⟨hdeadline, rfl, rfl⟩ := withDeadline_iff.mp hout
      obtain rfl := known_nothing hknown
      exact ⟨rfl, .bulkCloneTemplate (stops_iff.mp hstops) hdeadline⟩
  · exact absurd hout showUsage_ne

theorem written_of_gradeHomework
    (h : runGradeHomework config (CString.lit "grade-homework") args = .ok (notices, some inv)) :
    notices = [] ∧ Written config (CString.lit "grade-homework") args inv := by
  obtain ⟨⟨o, arguments⟩, hline, h⟩ := Loops.bind_eq_ok h
  have hout := Except.ok.inj h
  split at hout
  · next title templateRepo templateBranch inDeadline cutoffDays outPath husage =>
      obtain ⟨cs, hknown, rfl, hstops, -, rfl⟩ :=
        (readCommandLine_iff gradeOptions_eq (.inl (List.cons_ne_nil _ _))).mp ⟨hline, husage⟩
      obtain ⟨hdeadline, rfl, rfl⟩ := withDeadline_iff.mp hout
      exact ⟨optionsOf_notices cs, .gradeHomework hknown (stops_iff.mp hstops) hdeadline⟩
  · exact absurd hout showUsage_ne

theorem written_of_announceGrade
    (h : runAnnounceGrade config (CString.lit "announce-grade") args = .ok (notices, some inv)) :
    notices = [] ∧ Written config (CString.lit "announce-grade") args inv := by
  obtain ⟨⟨o, arguments⟩, hline, h⟩ := Loops.bind_eq_ok h
  have hout := Except.ok.inj h
  split at hout
  · next title husage =>
      obtain ⟨cs, hknown, rfl, hstops, -, rfl⟩ :=
        (readCommandLine_iff announceOptions_eq (.inl (List.cons_ne_nil _ _))).mp ⟨hline, husage⟩
      cases hout
      exact ⟨optionsOf_notices cs, .announceGrade hknown (stops_iff.mp hstops)⟩
  · exact absurd hout showUsage_ne

/-- A line that is written so calls the command. -/
theorem runCommand_of_written (h : Written config command args inv) :
    runCommand config command args = .ok ([], some inv) := by
  cases h with
  | clean => rfl
  | configCheck => rfl
  | @inviteStudents inputPath hpath =>
      have hread : readCommandLine plainOptions 1 [inputPath] = .ok (.start, [inputPath]) :=
        (read_of_known plainOptions_eq 1 (List.forall_mem_nil _) hpath [] (Nat.le_refl 1)).1
      show runInviteStudents config (CString.lit "invite-students") [inputPath] = _
      unfold runInviteStudents
      rw [hread]
      rfl
  | @collectHomework cs title inDeadline cutoffDays outPath hcs htitle hdeadline =>
      obtain ⟨hread, husage, hnotices⟩ :=
        read_of_known collectOptions_eq 4 hcs htitle [inDeadline, cutoffDays, outPath] (Nat.le_refl 4)
      show runCollectHomework config (CString.lit "collect-homework") _ = _
      unfold runCollectHomework
      rw [hread]
      show Except.ok _ = Except.ok _
      congr 1
      simp only [husage]
      exact withDeadline_iff.mpr ⟨hdeadline, hnotices.symm, rfl⟩
  | @bulkClone outDir title inDeadline cutoffDays hdir hdeadline =>
      have hread : readCommandLine plainOptions 6 [outDir, title, inDeadline, cutoffDays]
          = .ok (.start, [outDir, title, inDeadline, cutoffDays]) :=
        (read_of_known plainOptions_eq 6 (List.forall_mem_nil _) hdir [title, inDeadline, cutoffDays]
          (Nat.le_add_right 4 2)).1
      show runBulkClone config (CString.lit "bulk-clone") _ = _
      unfold runBulkClone
      rw [hread]
      show Except.ok _ = Except.ok _
      congr 1
      exact withDeadline_iff.mpr ⟨hdeadline, rfl, rfl⟩
  | @bulkCloneTemplate outDir title inDeadline cutoffDays templateRepo templateBranch hdir hdeadline =>
      have hread : readCommandLine plainOptions 6
          [outDir, title, inDeadline, cutoffDays, templateRepo, templateBranch]
          = .ok (.start, [outDir, title, inDeadline, cutoffDays, templateRepo, templateBranch]) :=
        (read_of_known plainOptions_eq 6 (List.forall_mem_nil _) hdir
          [title, inDeadline, cutoffDays, templateRepo, templateBranch] (Nat.le_refl 6)).1
      show runBulkClone config (CString.lit "bulk-clone") _ = _
      unfold runBulkClone
      rw [hread]
      show Except.ok _ = Except.ok _
      congr 1
      exact withDeadline_iff.mpr ⟨hdeadline, rfl, rfl⟩
  | @gradeHomework cs title templateRepo templateBranch inDeadline cutoffDays outPath hcs htitle hdeadline =>
      obtain ⟨hread, husage, hnotices⟩ := read_of_known gradeOptions_eq 6 hcs htitle
        [templateRepo, templateBranch, inDeadline, cutoffDays, outPath] (Nat.le_refl 6)
      show runGradeHomework config (CString.lit "grade-homework") _ = _
      unfold runGradeHomework
      rw [hread]
      show Except.ok _ = Except.ok _
      congr 1
      simp only [husage]
      exact withDeadline_iff.mpr ⟨hdeadline, hnotices.symm, rfl⟩
  | announceGrade hcs htitle =>
      obtain ⟨hread, husage, hnotices⟩ := read_of_known announceOptions_eq 1 hcs htitle [] (Nat.le_refl 1)
      show runAnnounceGrade config (CString.lit "announce-grade") _ = _
      unfold runAnnounceGrade
      rw [hread]
      show Except.ok _ = Except.ok _
      simp only [husage, hnotices]

/-- **Which lines call a command.** -/
theorem runCommand_iff :
    runCommand config command args = .ok (notices, some inv) ↔ notices = [] ∧ Written config command args inv := by
  constructor
  · intro h
    unfold runCommand at h
    split at h
    · next hname =>
        rw [compareString_iff] at hname
        subst hname
        obtain ⟨hnotices, rfl, rfl⟩ := runPlain_iff.mp h
        exact ⟨hnotices, .clean⟩
    split at h
    · next hname =>
        rw [compareString_iff] at hname
        subst hname
        obtain ⟨hnotices, rfl, rfl⟩ := runPlain_iff.mp h
        exact ⟨hnotices, .configCheck⟩
    split at h
    · next hname =>
        rw [compareString_iff] at hname
        subst hname
        exact written_of_inviteStudents h
    split at h
    · next hname =>
        rw [compareString_iff] at hname
        subst hname
        exact written_of_collectHomework h
    split at h
    · next hname =>
        rw [compareString_iff] at hname
        subst hname
        exact written_of_bulkClone h
    split at h
    · next hname =>
        rw [compareString_iff] at hname
        subst hname
        exact written_of_gradeHomework h
    split at h
    · next hname =>
        rw [compareString_iff] at hname
        subst hname
        exact written_of_announceGrade h
    · cases h
  · rintro ⟨rfl, h⟩
    exact runCommand_of_written h

end Commands

/-! ## Lines that end the program -/

section Crash

variable {dry onlyRepo interval : Bool} {config : Config} {command : CString} {args : List CString} {e : Fault}

/-- With its word, every option does what it does. -/
theorem apply_ok {item : Item CString} (hfits : item.Fits isOption (optionsFor dry onlyRepo interval))
    (o : CommandOptions) : ∃ o', item.apply (optionsFor dry onlyRepo interval) o = .ok o' := by
  cases item with
  | alone option =>
      obtain ⟨-, f, hf⟩ := hfits
      exact ⟨f o, by simp only [Item.apply, hf]⟩
  | followed option value =>
      simp only [Item.apply]
      rw [optionsFor_eq]
      split_ifs <;> exact ⟨_, rfl⟩

theorem fold_ok {items : List (Item CString)}
    (hfits : ∀ item ∈ items, item.Fits isOption (optionsFor dry onlyRepo interval)) (o : CommandOptions) :
    ∃ o', items.foldlM (Item.apply (optionsFor dry onlyRepo interval)) o = .ok o' := by
  induction items generalizing o with
  | nil => exact ⟨o, rfl⟩
  | cons item items ih =>
      obtain ⟨o', ho'⟩ := apply_ok (hfits item List.mem_cons_self) o
      rw [List.foldlM_cons, ho']
      exact ih (fun item hitem => hfits item (List.mem_cons_of_mem _ hitem)) o'

/-- A missing word matters to `--interval` only. -/
theorem dangling_error_iff {last : Item CString} (hdangles : last.Dangles isOption (optionsFor dry onlyRepo interval))
    (o : CommandOptions) :
    last.apply (optionsFor dry onlyRepo interval) o = .error e ↔
      interval = true ∧ last = .alone (CString.lit "--interval") ∧ e = .nullPointer := by
  cases last with
  | followed option value => cases hdangles
  | alone option =>
      obtain ⟨-, f, hf⟩ := hdangles
      simp only [Item.apply]
      rw [optionsFor_eq] at hf ⊢
      split_ifs at hf ⊢ with hhelp hdry hrepo hinterval
      · refine iff_of_false (fun h => by cases h) ?_
        rintro ⟨-, hlast, -⟩
        obtain rfl := Item.alone.inj hlast
        exact absurd hrepo.2 (by decide)
      · rw [hinterval.1, hinterval.2]
        constructor
        · intro h
          cases h
          exact ⟨rfl, rfl, rfl⟩
        · rintro ⟨-, -, rfl⟩
          rfl
      · cases hf

/-- **Lines that a command cannot read.** -/
theorem readCommandLine_error_iff {handle : CString → OptionHandling}
    (hhandle : handle = optionsFor dry onlyRepo interval) (argCount : Nat) :
    readCommandLine handle argCount args = .error e ↔
      interval = true ∧ e = .nullPointer ∧ ∃ items : List (Item CString), (∀ item ∈ items, item.Fits isOption handle) ∧
        args = items.flatMap Item.words ++ [CString.lit "--interval"] := by
  subst hhandle
  have hread : readCommandLine (optionsFor dry onlyRepo interval) argCount args = .error e ↔
      readOptions isOption (optionsFor dry onlyRepo interval) args .start = .error e := by
    unfold readCommandLine
    cases readOptions isOption (optionsFor dry onlyRepo interval) args .start with
    | error e' => rfl
    | ok out   => exact iff_of_false nofun nofun
  rw [hread]
  constructor
  · intro h
    obtain ⟨items, hall, ⟨rest, hstops, rfl⟩ | ⟨last, hdangles, rfl⟩⟩ :=
      exists_items isOption (optionsFor dry onlyRepo interval) args
    · obtain ⟨o, ho⟩ := fold_ok hall .start
      rw [readOptions_items hall, ho] at h
      cases h.symm.trans (readOptions_stop _ hstops o)
    · obtain ⟨o, ho⟩ := fold_ok hall .start
      rw [readOptions_items hall, ho] at h
      have hlast := h.symm.trans (readOptions_dangling hdangles o)
      have happly : last.apply (optionsFor dry onlyRepo interval) o = .error e := by
        cases happly : last.apply (optionsFor dry onlyRepo interval) o with
        | error e' =>
            rw [happly] at hlast
            cases hlast
            rfl
        | ok o' =>
            rw [happly] at hlast
            cases hlast
      obtain ⟨hinterval, rfl, rfl⟩ := (dangling_error_iff hdangles o).mp happly
      exact ⟨hinterval, rfl, items, hall, rfl⟩
  · rintro ⟨rfl, rfl, items, hall, rfl⟩
    have hdangles : (Item.alone (CString.lit "--interval")).Dangles isOption (optionsFor dry onlyRepo true) := by
      refine ⟨by decide, setInterval, ?_⟩
      rw [optionsFor_eq, if_neg (by decide), if_neg (fun hd => absurd hd.2 (by decide)),
        if_neg (fun hr => absurd hr.2 (by decide)), if_pos ⟨rfl, rfl⟩]
    obtain ⟨o, ho⟩ := fold_ok hall .start
    rw [readOptions_items hall, ho]
    show readOptions isOption (optionsFor dry onlyRepo true) (Item.words (.alone (CString.lit "--interval"))) o = _
    rw [readOptions_dangling hdangles, (dangling_error_iff hdangles o).mpr ⟨rfl, rfl, rfl⟩]
    rfl

/-- Behind its line, a command has no way to end the program. -/
theorem line_of_error {handle : CString → OptionHandling} (hhandle : handle = optionsFor dry onlyRepo interval)
    {argCount : Nat} {f : CommandOptions × List CString → Except Fault Called} (hf : ∀ line, ∃ out, f line = .ok out)
    (h : (readCommandLine handle argCount args >>= f) = .error e) :
    interval = true ∧ e = .nullPointer ∧ ∃ items : List (Item CString), (∀ item ∈ items, item.Fits isOption handle) ∧
      args = items.flatMap Item.words ++ [CString.lit "--interval"] := by
  refine (readCommandLine_error_iff hhandle argCount).mp ?_
  cases hline : readCommandLine handle argCount args with
  | error e' =>
      rw [hline] at h
      cases h
      rfl
  | ok line =>
      rw [hline] at h
      obtain ⟨out, hout⟩ := hf line
      cases h.symm.trans hout

/-- **The only line that ends the program**, whatever the command: `announce-grade` with `--interval` and nothing behind
    it, which is a read through a null pointer. -/
theorem runCommand_error_iff (config : Config) (command : CString) (args : List CString) (e : Fault) :
    runCommand config command args = .error e ↔
      command = CString.lit "announce-grade" ∧ e = .nullPointer ∧ ∃ items : List (Item CString),
        (∀ item ∈ items, item.Fits isOption announceOptions) ∧
          args = items.flatMap Item.words ++ [CString.lit "--interval"] := by
  constructor
  · intro h
    unfold runCommand at h
    split at h
    · cases (line_of_error plainOptions_eq (fun _ => ⟨_, rfl⟩) h).1
    split at h
    · cases (line_of_error plainOptions_eq (fun _ => ⟨_, rfl⟩) h).1
    split at h
    · cases (line_of_error plainOptions_eq (fun _ => ⟨_, rfl⟩) h).1
    split at h
    · cases (line_of_error collectOptions_eq (fun _ => ⟨_, rfl⟩) h).1
    split at h
    · cases (line_of_error plainOptions_eq (fun _ => ⟨_, rfl⟩) h).1
    split at h
    · cases (line_of_error gradeOptions_eq (fun _ => ⟨_, rfl⟩) h).1
    split at h
    · next hname =>
        rw [compareString_iff] at hname
        exact ⟨hname, (line_of_error announceOptions_eq (fun _ => ⟨_, rfl⟩) h).2⟩
    · cases h
  · rintro ⟨rfl, rfl, hitems⟩
    have hline := (readCommandLine_error_iff announceOptions_eq 1).mpr ⟨rfl, rfl, hitems⟩
    show runAnnounceGrade config (CString.lit "announce-grade") args = _
    unfold runAnnounceGrade
    rw [hline]
    rfl

end Crash

/-! ## The options of the program -/

section Program

variable {args rest : List CString} {o : ProgramOptions}

/-- Every option of the program stands alone. -/
theorem programOption_flag (option : CString) : ∃ f, programOption option = .flag f := by
  unfold programOption
  split_ifs <;> exact ⟨_, rfl⟩

theorem not_dangles_program (last : Item CString) : ¬ last.Dangles isOption programOption := by
  intro hdangles
  cases last with
  | followed option value => exact hdangles
  | alone option =>
      obtain ⟨-, f, hf⟩ := hdangles
      obtain ⟨g, hg⟩ := programOption_flag option
      cases hg.symm.trans hf

/-- `--log` is the only one that does not ask for the usage text. -/
theorem log_or_usage {item : Item CString} {o o' : ProgramOptions} (hfits : item.Fits isOption programOption)
    (happly : item.apply programOption o = .ok o') :
    (item = .alone (CString.lit "--log") ∧ o' = { o with log := true }) ∨ o'.showUsage = true := by
  cases item with
  | followed option value =>
      obtain ⟨-, f, hf⟩ := hfits
      obtain ⟨g, hg⟩ := programOption_flag option
      cases hg.symm.trans hf
  | alone option =>
      simp only [Item.apply, programOption, compareString_iff] at happly
      split_ifs at happly with hhelp hlog
      · cases happly
        exact .inr rfl
      · cases happly
        exact .inl ⟨by rw [hlog], rfl⟩
      · cases happly
        exact .inr rfl

theorem program_usage_stays {items : List (Item CString)} {o o' : ProgramOptions}
    (hfits : ∀ item ∈ items, item.Fits isOption programOption)
    (hfold : items.foldlM (Item.apply programOption) o = .ok o') (h : o.showUsage = true) : o'.showUsage = true := by
  induction items generalizing o with
  | nil =>
      cases hfold
      exact h
  | cons item items ih =>
      obtain ⟨o'', happly, hfold⟩ := Loops.bind_eq_ok hfold
      refine ih (fun item hitem => hfits item (List.mem_cons_of_mem _ hitem)) hfold ?_
      rcases log_or_usage (hfits item List.mem_cons_self) happly with ⟨-, rfl⟩ | husage
      · exact h
      · exact husage

theorem exists_logs {items : List (Item CString)} {o o' : ProgramOptions}
    (hfits : ∀ item ∈ items, item.Fits isOption programOption)
    (hfold : items.foldlM (Item.apply programOption) o = .ok o') (h : o'.showUsage = false) :
    items = List.replicate items.length (.alone (CString.lit "--log")) ∧
      o' = { o with log := o.log || decide (0 < items.length) } := by
  induction items generalizing o with
  | nil =>
      cases hfold
      exact ⟨rfl, by simp⟩
  | cons item items ih =>
      obtain ⟨o'', happly, hfold⟩ := Loops.bind_eq_ok hfold
      have hrest := fun item hitem => hfits item (List.mem_cons_of_mem _ hitem)
      rcases log_or_usage (hfits item List.mem_cons_self) happly with ⟨rfl, rfl⟩ | husage
      · obtain ⟨hitems, rfl⟩ := ih hrest hfold
        refine ⟨?_, by simp⟩
        rw [List.length_cons, List.replicate_succ, ← hitems]
      · have hstill := program_usage_stays hrest hfold husage
        rw [h] at hstill
        cases hstill

theorem logs_set (k : Nat) (o : ProgramOptions) :
    (List.replicate k (Item.alone (CString.lit "--log"))).foldlM (Item.apply programOption) o
      = .ok { o with log := o.log || decide (0 < k) } := by
  induction k generalizing o with
  | zero => simp [pure, Except.pure]
  | succ k ih =>
      have hone : (Item.alone (CString.lit "--log")).apply programOption o = .ok { o with log := true } := rfl
      rw [List.replicate_succ, List.foldlM_cons, hone]
      exact (ih _).trans (by simp)

/-- **What the program reads** in front of the command, unless it prints its usage text. -/
theorem readProgram_iff :
    (readOptions isOption programOption args ⟨false, false, []⟩ = .ok (o, rest) ∧ o.showUsage = false) ↔
      ∃ k, args = List.replicate k (CString.lit "--log") ++ rest ∧ Stops isOption rest ∧
        o = ⟨false, decide (0 < k), []⟩ := by
  constructor
  · rintro ⟨hread, husage⟩
    obtain ⟨items, hall, ⟨hstops, rfl, hfold⟩ | ⟨last, hdangles, -⟩⟩ := readOptions_iff.mp hread
    · obtain ⟨hitems, rfl⟩ := exists_logs hall hfold husage
      refine ⟨items.length, ?_, hstops, by simp⟩
      rw [hitems, List.length_replicate, words_replicate]
    · exact absurd hdangles (not_dangles_program last)
  · rintro ⟨k, rfl, hstops, rfl⟩
    refine ⟨readOptions_iff.mpr ⟨List.replicate k (.alone (CString.lit "--log")), ?_, .inl ⟨hstops, ?_, ?_⟩⟩, rfl⟩
    · intro item hitem
      rw [(List.mem_replicate.mp hitem).2]
      exact ⟨by decide, programOption_flag _⟩
    · rw [words_replicate]
    · exact (logs_set k _).trans (by simp)

end Program

/-! ## The whole line -/

/-- **When the program calls a command, and what it calls it with.** The line is `--log` any number of times, the name
    of a command, and what its usage text says; the config file was there before, and every value is set. Nothing
    else is printed then. -/
theorem runHand_calls_iff (fuel : Nat) (w : HandWorld) (args : List CString) (r : HandRun) (inv : Invocation) :
    (runHand fuel w args = .ok r ∧ r.called.2 = some inv) ↔
      (configPath w.rootDir).length < maxPathLen ∧ (logFilePath w.logDir w.time).length < maxPathLen ∧
        ∃ k command rest content config, args = List.replicate k (CString.lit "--log") ++ command :: rest ∧
          isOption command = false ∧ w.configFile = some content ∧
          loadConfig fuel (some content) = .ok (true, config) ∧ Written config command rest inv ∧
          r = ⟨decide (0 < k), some content, [], some inv⟩ := by
  unfold runHand
  constructor
  · rintro ⟨h, hinv⟩
    obtain ⟨_, hconfigPath, h⟩ := Loops.bind_eq_ok h
    obtain ⟨_, hlogPath, h⟩ := Loops.bind_eq_ok h
    obtain ⟨⟨o, line⟩, hread, h⟩ := Loops.bind_eq_ok h
    refine ⟨length_lt_of_formatString hconfigPath, length_lt_of_formatString hlogPath, ?_⟩
    cases line with
    | nil =>
        cases Except.ok.inj h
        cases hinv
    | cons command rest =>
        dsimp only at h
        split at h
        · cases Except.ok.inj h
          cases hinv
        · next hgo =>
            rw [not_or] at hgo
            cases hfile : w.configFile with
            | none =>
                rw [hfile] at hgo
                exact absurd rfl hgo.1
            | some content =>
                rw [hfile] at h
                obtain ⟨⟨loaded, config⟩, hload, h⟩ := Loops.bind_eq_ok h
                dsimp only at h
                split at h
                · next hloaded =>
                    obtain ⟨⟨notices, invocation⟩, hcall, h⟩ := Loops.bind_eq_ok h
                    cases Except.ok.inj h
                    obtain rfl : invocation = some inv := hinv
                    obtain ⟨rfl, hwritten⟩ := runCommand_iff.mp hcall
                    obtain ⟨k, rfl, hstops, rfl⟩ := readProgram_iff.mp ⟨hread, by simpa using hgo.2⟩
                    subst hloaded
                    exact ⟨k, command, rest, content, config, rfl, stops_iff.mp hstops, rfl, hload, hwritten, rfl⟩
                · cases Except.ok.inj h
                  cases hinv
  · rintro ⟨hconfigPath, hlogPath, k, command, rest, content, config, rfl, hcommand, hfile, hload, hwritten, rfl⟩
    obtain ⟨hread, -⟩ := readProgram_iff.mpr ⟨k, rfl, stops_iff.mpr hcommand, rfl⟩
    refine ⟨?_, rfl⟩
    rw [formatString_ok hconfigPath, formatString_ok hlogPath, hread, hfile]
    show (loadConfig fuel (some content) >>= _) = _
    rw [hload]
    show (runCommand config command rest >>= _) = _
    rw [runCommand_iff.mpr ⟨rfl, hwritten⟩]
    rfl

end Hand2
