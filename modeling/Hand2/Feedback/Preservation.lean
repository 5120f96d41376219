import Hand2.Feedback.Template
import Mathlib.Data.List.Flatten

/-!
# `Feedback.Preservation` — what each stage keeps of a text

A template of the feedback format should come out of each stage with its placeholders replaced and nothing
else touched. Both stages do so exactly for templates without a `}` of their own: stage two drops such a
brace, and stage one takes it for the end of the last placeholder, or of none.
-/

namespace Hand2

open Scanner

/-! ## Stage two -/

/-- What a token of a report stands for in row `y`. -/
def fillLabel (sheet : Sheet) (y : Nat) : Token → List UInt8
  | .text c           => [c]
  | .escape           => [dollar]
  | .placeholder name => ((sheet.lookup y (CString.ofBytes name)).getD CString.empty).bytes

/-- What a report stands for in row `y`. -/
def fillLabels (sheet : Sheet) (y : Nat) (ts : List Token) : List UInt8 := ts.flatMap (fillLabel sheet y)

variable {sheet : Sheet} {y : Nat}

/-- Stage two writes what the tokens stand for, without the braces of the text. -/
theorem flatMap_issueEvent (since : Option (List UInt8)) (ts : List Token) :
    (tokenEvents since ts).flatMap (issueEvent sheet y)
      = fillLabels sheet y (ts.filter (· ≠ .text closeBrace)) := by
  induction ts generalizing since with
  | nil => rfl
  | cons t ts ih =>
      cases t with
      | text c =>
          by_cases hc : c = closeBrace
          · subst hc
            rw [tokenEvents, if_pos rfl, List.flatMap_cons, ih, List.filter_cons_of_neg (by simp)]
            rfl
          · rw [tokenEvents, if_neg hc, List.flatMap_cons, ih, List.filter_cons_of_pos (by simp [hc])]
            rfl
      | escape =>
          rw [tokenEvents, List.flatMap_cons, ih, List.filter_cons_of_pos (by simp)]
          rfl
      | placeholder name =>
          rw [tokenEvents, List.flatMap_cons, ih, List.filter_cons_of_pos (by simp)]
          rfl

/-- A dropped brace is missed. -/
theorem fillLabels_filter_length (sheet : Sheet) (y : Nat) {ts : List Token} (h : Token.text closeBrace ∈ ts) :
    (fillLabels sheet y (ts.filter (· ≠ .text closeBrace))).length < (fillLabels sheet y ts).length := by
  have hle : ∀ us : List Token,
      (fillLabels sheet y (us.filter (· ≠ .text closeBrace))).length ≤ (fillLabels sheet y us).length :=
    fun us => (List.filter_sublist.flatMap _).length_le
  obtain ⟨us, vs, rfl⟩ := List.append_of_mem h
  have hsplit : ∀ a b : List Token, fillLabels sheet y (a ++ b) = fillLabels sheet y a ++ fillLabels sheet y b :=
    fun a b => List.flatMap_append
  have hbrace : fillLabels sheet y (.text closeBrace :: vs) = closeBrace :: fillLabels sheet y vs := rfl
  rw [List.filter_append, List.filter_cons_of_neg (by simp), hsplit, hsplit, hbrace, List.length_append,
    List.length_append, List.length_cons]
  have h1 := hle us
  have h2 := hle vs
  omega

/-- The labels stage two looks up are the names of the placeholders. -/
theorem all_labelFound (since : Option (List UInt8)) {ts : List Token}
    (h : ∀ name, Token.placeholder name ∈ ts → sheet.HasLabel (CString.ofBytes name)) :
    (tokenEvents since ts).all (labelFound sheet y) = true := by
  induction ts generalizing since with
  | nil => rfl
  | cons t ts ih =>
      have hts := fun since => ih since (fun name hm => h name (List.mem_cons_of_mem _ hm))
      cases t with
      | text c =>
          rw [tokenEvents, List.all_cons, hts]
          split <;> rfl
      | escape => rw [tokenEvents, List.all_cons, hts]; rfl
      | placeholder name =>
          rw [tokenEvents, List.all_cons, hts, labelFound,
            Sheet.lookup_isSome_iff.mpr (h name List.mem_cons_self)]
          rfl

/-- Nothing a report stands for holds a NUL. -/
theorem zero_notMem_fillLabels {report : CString} {ts : List Token}
    (h : tokenize none report.bytes = some ts) (us : List Token) (hus : us ⊆ ts) :
    (0 : UInt8) ∉ fillLabels sheet y us := by
  intro hmem
  obtain ⟨t, ht, h0⟩ := List.mem_flatMap.mp hmem
  cases t with
  | text c           => exact report.noNul (render_subset h (hus ht) h0)
  | escape           => exact absurd (List.mem_singleton.mp h0) (by decide)
  | placeholder name => exact CString.noNul _ h0

/-- The issue body of a report in the feedback format. -/
theorem issueBody_of_tokenize {report : CString} {ts : List Token}
    (h : tokenize none report.bytes = some ts) :
    (issueBody sheet y report).bytes = fillLabels sheet y (ts.filter (· ≠ .text closeBrace)) := by
  have hlex : start.lex report.bytes = tokenEvents none ts := lex_of_tokenize none h
  rw [issueBody, hlex, flatMap_issueEvent, CString.bytes_ofBytes,
    CString.takeWhile_eq_self (zero_notMem_fillLabels h _ (List.filter_subset_self _))]

/-- With its labels in the sheet a report in the feedback format succeeds. -/
theorem labelsFound_of_tokenize {report : CString} {ts : List Token}
    (h : tokenize none report.bytes = some ts)
    (hlabels : ∀ name, Token.placeholder name ∈ ts → sheet.HasLabel (CString.ofBytes name)) :
    labelsFound sheet y report = true := by
  have hlex : start.lex report.bytes = tokenEvents none ts := lex_of_tokenize none h
  rw [labelsFound, hlex]
  exact all_labelFound none hlabels

/-- **Announcing preserves the text outside placeholders** exactly when no report has a `}` of its own. -/
theorem formatFeedbackIssues_preserves_iff (sheet : Sheet) (reports : List CString)
    (tokens : Nat → List Token)
    (hlen : reports.length = sheet.height)
    (htokens : ∀ y < sheet.height, tokenize none (reports.getD y CString.empty).bytes = some (tokens y))
    (hlabels : ∀ y < sheet.height, ∀ name, Token.placeholder name ∈ tokens y →
      sheet.HasLabel (CString.ofBytes name)) :
    (∃ bodies, formatFeedbackIssues reports sheet = .ok (true, bodies) ∧
        bodies.map CString.bytes = (List.range sheet.height).map (fun y => fillLabels sheet y (tokens y))) ↔
      ∀ y < sheet.height, Token.text closeBrace ∉ tokens y := by
  have hall : (List.range sheet.height).all
      (fun y => labelsFound sheet y (reports.getD y CString.empty)) = true := by
    rw [List.all_eq_true]
    intro y hy
    have hy' := List.mem_range.mp hy
    exact labelsFound_of_tokenize (htokens y hy') (hlabels y hy')
  have hrun := formatFeedbackIssues_eq hlen
  rw [hall, if_pos rfl] at hrun
  have hiff : ∀ y < sheet.height,
      ((issueBody sheet y (reports.getD y CString.empty)).bytes = fillLabels sheet y (tokens y) ↔
        Token.text closeBrace ∉ tokens y) := by
    intro y hy
    rw [issueBody_of_tokenize (htokens y hy)]
    constructor
    · intro heq hmem
      have hlt := fillLabels_filter_length sheet y hmem
      rw [heq] at hlt
      exact absurd hlt (Nat.lt_irrefl _)
    · intro hno
      rw [List.filter_eq_self.mpr (fun t ht => decide_eq_true (by rintro rfl; exact hno ht))]
  constructor
  · rintro ⟨bodies, hout, hbodies⟩ y hy
    rw [hrun] at hout
    injection hout with hout
    injection hout with _ hout
    subst hout
    rw [List.map_map] at hbodies
    exact (hiff y hy).mp (List.map_inj_left.mp hbodies y (List.mem_range.mpr hy))
  · intro h
    refine ⟨_, hrun, ?_⟩
    rw [List.map_map]
    exact List.map_congr_left (fun y hy => (hiff y (List.mem_range.mp hy)).mpr (h y (List.mem_range.mp hy)))

/-- A sheet of one student and one label. -/
def gradeSheet (label cell : String) : Sheet :=
  ⟨1, 1, [CString.lit label], [CString.lit cell], rfl, rfl⟩

theorem formatFeedbackIssues_preserves_grade :
    ∃ bodies, formatFeedbackIssues [CString.lit "Grade: ${grade} ($$)"] (gradeSheet "grade" "80")
        = .ok (true, bodies) ∧
      bodies.map CString.bytes = [(CString.lit "Grade: 80 ($)").bytes] :=
  (formatFeedbackIssues_preserves_iff (gradeSheet "grade" "80") [CString.lit "Grade: ${grade} ($$)"]
    (fun _ => [.text 71, .text 114, .text 97, .text 100, .text 101, .text 58, .text 32,
      .placeholder [103, 114, 97, 100, 101], .text 32, .text 40, .escape, .text 41]) rfl
    (fun y hy => by obtain rfl : y = 0 := Nat.lt_one_iff.mp hy; decide)
    (fun y hy name hname => by
      obtain rfl : name = [103, 114, 97, 100, 101] := by simpa using hname
      decide)).mpr (fun y hy => by decide)

/-- **A brace that is lost**: a report about `{x}` is announced without the brace that closes it. -/
theorem formatFeedbackIssues_preserves_counterexample :
    tokenize none (CString.lit "\x7bx\x7d").bytes = some [.text openBrace, .text 120, .text closeBrace] ∧
    formatFeedbackIssues [CString.lit "\x7bx\x7d"] (gradeSheet "grade" "80") = .ok (true, [CString.lit "\x7bx"]) ∧
    fillLabels (gradeSheet "grade" "80") 0 [.text openBrace, .text 120, .text closeBrace]
      = (CString.lit "\x7bx\x7d").bytes := by decide

/-! ## Stage one -/

section Files

variable (content : CString → List UInt8) (isDirectory : CString → Bool) (dir : CString)

/-- The path of a file placeholder. -/
def filePath (name : List UInt8) : CString := dir ++ CString.lit "/" ++ CString.ofBytes name

/-- What a token of the template stands for after stage one. -/
def fillFile : Token → List UInt8
  | .text c           => [c]
  | .escape           => [dollar, dollar]
  | .placeholder name =>
      if isFilePath (CString.ofBytes name) then content (filePath dir name)
      else dollar :: openBrace :: name ++ [closeBrace]

/-- What a template stands for after stage one. -/
def fillFiles (ts : List Token) : List UInt8 := ts.flatMap (fillFile content dir)

/-- The paths of all file placeholders fit their buffer, and none of them is a directory. -/
def PathsRead (ts : List Token) : Prop :=
  ∀ t ∈ ts, ∀ name, t = .placeholder name → isFilePath (CString.ofBytes name) = true →
    (filePath dir name).length < maxPathLen ∧ isDirectory (filePath dir name) = false

variable {content isDirectory dir}

theorem fillFiles_cons (t : Token) (ts : List Token) :
    fillFiles content dir (t :: ts) = fillFile content dir t ++ fillFiles content dir ts := rfl

/-- An identifier that is a path gives its file if the path fits and is no directory. -/
theorem replaceIdentifier_file {name : List UInt8} (h : isFilePath (CString.ofBytes name) = true) :
    replaceIdentifier ⟨content, isDirectory⟩ dir (CString.ofBytes name)
      = if (filePath dir name).length < maxPathLen ∧ isDirectory (filePath dir name) = false then
          .ok (content (filePath dir name))
        else .error .exit := by
  unfold replaceIdentifier
  rw [if_pos h]
  show (formatString maxPathLen (filePath dir name) >>= _) = _
  by_cases hlt : (filePath dir name).length < maxPathLen
  · rw [formatString_ok hlt]
    show Files.readEntireFile _ (filePath dir name) = _
    cases hdir : isDirectory (filePath dir name) with
    | false =>
        rw [if_pos ⟨hlt, rfl⟩]
        exact Files.readEntireFile_ok hdir
    | true =>
        rw [if_neg (by simp)]
        exact Files.readEntireFile_exit hdir
  · rw [formatString_exit (Nat.le_of_not_lt hlt), if_neg fun h => hlt h.1]
    rfl

/-- Any other identifier is written back. -/
theorem replaceIdentifier_label {name : List UInt8} (h : isFilePath (CString.ofBytes name) = false) :
    replaceIdentifier ⟨content, isDirectory⟩ dir (CString.ofBytes name)
      = .ok (dollar :: openBrace :: (CString.ofBytes name).bytes ++ [closeBrace]) := by
  unfold replaceIdentifier
  rw [if_neg (by rw [h]; decide)]
  rfl

/-- A placeholder becomes what it stands for, if its file can be read. -/
theorem replaceIdentifier_eq {name : List UInt8} (hnul : (0 : UInt8) ∉ name)
    (hread : isFilePath (CString.ofBytes name) = true →
      (filePath dir name).length < maxPathLen ∧ isDirectory (filePath dir name) = false) :
    replaceIdentifier ⟨content, isDirectory⟩ dir (CString.ofBytes name)
      = .ok (fillFile content dir (.placeholder name)) := by
  by_cases h : isFilePath (CString.ofBytes name) = true
  · rw [replaceIdentifier_file h, if_pos (hread h), fillFile, if_pos h]
  · rw [replaceIdentifier_label (by simpa using h), fillFile, if_neg h, CString.bytes_ofBytes,
      CString.takeWhile_eq_self hnul]

/-- **Without a brace of its own** a template whose files can be read becomes what it stands for. -/
theorem reportEvents_tokenEvents (since : Option (List UInt8)) {ts : List Token}
    (hnul : ∀ name, Token.placeholder name ∈ ts → (0 : UInt8) ∉ name)
    (hbrace : Token.text closeBrace ∉ ts) (hread : PathsRead isDirectory dir ts) :
    reportEvents ⟨content, isDirectory⟩ dir (tokenEvents since ts) = .ok (fillFiles content dir ts) := by
  induction ts generalizing since with
  | nil => rfl
  | cons t ts ih =>
      have hts := fun since => ih since (fun name hm => hnul name (List.mem_cons_of_mem _ hm))
        (fun hm => hbrace (List.mem_cons_of_mem _ hm)) (fun t ht => hread t (List.mem_cons_of_mem _ ht))
      rw [fillFiles_cons]
      cases t with
      | text c =>
          have hc : ¬ c = closeBrace := fun hc => hbrace (hc ▸ List.mem_cons_self)
          rw [tokenEvents, if_neg hc, reportEvents, hts]
          rfl
      | escape =>
          rw [tokenEvents, reportEvents, hts]
          rfl
      | placeholder name =>
          rw [tokenEvents, reportEvents, hts, reportEvent,
            replaceIdentifier_eq (hnul name List.mem_cons_self)
              (hread (.placeholder name) List.mem_cons_self name rfl)]
          rfl

/-- A file that cannot be read ends the program. -/
theorem reportEvents_exit (since : Option (List UInt8)) {ts : List Token}
    (hbrace : Token.text closeBrace ∉ ts) (hread : ¬ PathsRead isDirectory dir ts) :
    reportEvents ⟨content, isDirectory⟩ dir (tokenEvents since ts) = .error .exit := by
  induction ts generalizing since with
  | nil => exact absurd (fun t ht => absurd ht List.not_mem_nil) hread
  | cons t ts ih =>
      have hbrace' : Token.text closeBrace ∉ ts := fun hm => hbrace (List.mem_cons_of_mem _ hm)
      -- either the first token is the one whose file cannot be read, or a later one is
      by_cases hhere : ∃ name, t = .placeholder name ∧ isFilePath (CString.ofBytes name) = true ∧
          ¬ ((filePath dir name).length < maxPathLen ∧ isDirectory (filePath dir name) = false)
      · obtain ⟨name, rfl, hpath, hno⟩ := hhere
        rw [tokenEvents, reportEvents, reportEvent, replaceIdentifier_file hpath, if_neg hno, writeBoth_error]
      · have hlater : ¬ PathsRead isDirectory dir ts := by
          intro hts
          apply hread
          intro t' ht' name hname hpath
          rcases List.mem_cons.mp ht' with rfl | hin
          · by_contra hcon
            exact hhere ⟨name, hname, hpath, hcon⟩
          · exact hts t' hin name hname hpath
        have hrest := fun since => ih since hbrace' hlater
        cases t with
        | text c =>
            have hc : ¬ c = closeBrace := fun hc => hbrace (hc ▸ List.mem_cons_self)
            rw [tokenEvents, if_neg hc, reportEvents, hrest]
            rfl
        | escape =>
            rw [tokenEvents, reportEvents, hrest]
            rfl
        | placeholder name =>
            obtain ⟨out, hout⟩ : ∃ out,
                replaceIdentifier ⟨content, isDirectory⟩ dir (CString.ofBytes name) = .ok out := by
              by_cases hpath : isFilePath (CString.ofBytes name) = true
              · refine ⟨_, (replaceIdentifier_file hpath).trans (if_pos ?_)⟩
                by_contra hcon
                exact hhere ⟨name, rfl, hpath, hcon⟩
              · exact ⟨_, replaceIdentifier_label (by simpa using hpath)⟩
            rw [tokenEvents, reportEvents, hrest, reportEvent, hout]
            rfl

/-- Whatever is written for a placeholder is what it stands for. -/
theorem fillFile_of_replaceIdentifier {name out : List UInt8} (hnul : (0 : UInt8) ∉ name)
    (h : replaceIdentifier ⟨content, isDirectory⟩ dir (CString.ofBytes name) = .ok out) :
    out = fillFile content dir (.placeholder name) := by
  have hread : isFilePath (CString.ofBytes name) = true →
      (filePath dir name).length < maxPathLen ∧ isDirectory (filePath dir name) = false := by
    intro hpath
    by_contra hcon
    rw [replaceIdentifier_file hpath, if_neg hcon] at h
    exact absurd h (by simp)
  rw [replaceIdentifier_eq hnul hread] at h
  injection h with h
  exact h.symm

/-- Where every file reads `$`, whatever is written for an identifier starts with `$`. -/
theorem replaceIdentifier_dollar {name out : List UInt8}
    (h : replaceIdentifier ⟨fun _ => [dollar], isDirectory⟩ dir (CString.ofBytes name) = .ok out) :
    ∃ rest, out = dollar :: rest := by
  by_cases hpath : isFilePath (CString.ofBytes name) = true
  · rw [replaceIdentifier_file hpath] at h
    split at h
    · injection h with h
      exact ⟨[], h.symm⟩
    · exact absurd h (by simp)
  · rw [replaceIdentifier_label (by simpa using hpath)] at h
    injection h with h
    exact ⟨_, h.symm⟩

/-- **A brace of the template shows**: where every file reads `$`, what is written instead of a `}` is
    something else. -/
theorem no_brace_of_reportEvents {since : Option (List UInt8)} {ts : List Token}
    (hnul : ∀ name, Token.placeholder name ∈ ts → (0 : UInt8) ∉ name)
    (h : reportEvents ⟨fun _ => [dollar], isDirectory⟩ dir (tokenEvents since ts)
      = .ok (fillFiles (fun _ => [dollar]) dir ts)) :
    Token.text closeBrace ∉ ts := by
  induction ts generalizing since with
  | nil => exact List.not_mem_nil
  | cons t ts ih =>
      have hnul' : ∀ name, Token.placeholder name ∈ ts → (0 : UInt8) ∉ name :=
        fun name hm => hnul name (List.mem_cons_of_mem _ hm)
      rw [fillFiles_cons] at h
      cases t with
      | text c =>
          by_cases hc : c = closeBrace
          · subst hc
            rw [tokenEvents, if_pos rfl, reportEvents] at h
            obtain ⟨out, rest, hout, -, heq⟩ := writeBoth_eq_ok.mp h
            cases since with
            | none   => exact absurd hout (by simp [reportEvent])
            | some w =>
                obtain ⟨out', rfl⟩ := replaceIdentifier_dollar hout
                exact absurd (List.cons.inj heq).1 (by decide)
          · rw [tokenEvents, if_neg hc, reportEvents] at h
            obtain ⟨out, rest, hout, hrest, heq⟩ := writeBoth_eq_ok.mp h
            injection hout with hout
            subst hout
            obtain rfl := List.append_cancel_left heq
            rw [List.mem_cons, not_or]
            exact ⟨fun he => hc (Token.text.inj he).symm, ih hnul' hrest⟩
      | escape =>
          rw [tokenEvents, reportEvents] at h
          obtain ⟨out, rest, hout, hrest, heq⟩ := writeBoth_eq_ok.mp h
          injection hout with hout
          subst hout
          obtain rfl := List.append_cancel_left heq
          rw [List.mem_cons, not_or]
          exact ⟨by simp, ih hnul' hrest⟩
      | placeholder name =>
          rw [tokenEvents, reportEvents] at h
          obtain ⟨out, rest, hout, hrest, heq⟩ := writeBoth_eq_ok.mp h
          obtain rfl := fillFile_of_replaceIdentifier (hnul name List.mem_cons_self) hout
          obtain rfl := List.append_cancel_left heq
          rw [List.mem_cons, not_or]
          exact ⟨by simp, ih hnul' hrest⟩

/-- The names of a template without a NUL have none. -/
theorem zero_notMem_name {template : List UInt8} {ts : List Token} (hnul : (0 : UInt8) ∉ template)
    (htokens : tokenize none template = some ts) :
    ∀ name, Token.placeholder name ∈ ts → (0 : UInt8) ∉ name := by
  intro name hm h0
  refine hnul (render_subset htokens hm ?_)
  simp [Token.render, h0]

/-- A template in the feedback format without a brace of its own becomes what it stands for if its files
    can be read; else the program ends. -/
theorem formatReport_of_tokenize (content : CString → List UInt8) (isDirectory : CString → Bool) (dir : CString)
    {template : List UInt8} {ts : List Token}
    (hnul : (0 : UInt8) ∉ template) (htokens : tokenize none template = some ts)
    (hbrace : Token.text closeBrace ∉ ts) :
    (PathsRead isDirectory dir ts → formatReportByFileReplacement ⟨content, isDirectory⟩ template dir
      = .ok (fillFiles content dir ts)) ∧
    (¬ PathsRead isDirectory dir ts →
      formatReportByFileReplacement ⟨content, isDirectory⟩ template dir = .error .exit) := by
  have hlex : start.lex template = tokenEvents none ts := lex_of_tokenize none htokens
  rw [formatReportByFileReplacement_eq, hlex]
  exact ⟨reportEvents_tokenEvents none (zero_notMem_name hnul htokens) hbrace, reportEvents_exit none hbrace⟩

end Files

end Hand2
