import Hand2.StringArray
import Hand2.Library.Words

/-!
# `Invite.UsernameFile` — `read_string_array_file`

The usernames come from a file. The first loop overwrites every blank with a NUL, the second appends the string at
every byte behind a NUL that is none itself. Each of them ends at the next NUL, so they are the words of the file
(`appendNames_eq`), as many of them as an array can hold.
-/

namespace Hand2

open Words

/-- `read_entire_file`: the used bytes of the buffer, from what `fopen` finds. -/
def readEntireFile (file : Option (List UInt8)) : List UInt8 := file.getD []

@[simp] theorem readEntireFile_some (content : List UInt8) : readEntireFile (some content) = content := rfl

/-- The bytes that separate usernames. -/
def Blank (c : UInt8) : Prop := c = 32 ∨ c = 9 ∨ c = 13 ∨ c = 10

instance : DecidablePred Blank := fun _ => inferInstanceAs (Decidable (_ ∨ _))

/-- The first loop of `read_string_array_file`. -/
def blankOut (content : List UInt8) : List UInt8 := content.map fun c => if Blank c then 0 else c

/-- The second loop, in front of the bytes that are left; behind them stands the terminator of the buffer. -/
def appendNames : UInt8 → List UInt8 → StringArray → Except Fault StringArray
  | _,        [],        result => .ok result
  | prevChar, c :: rest, result =>
      if prevChar = 0 ∧ c ≠ 0 then do
        let result ← appendStringArray result (CString.ofBytes (c :: rest))
        appendNames c rest result
      else appendNames c rest result

/-- `read_string_array_file`, from what `fopen` finds. -/
def readStringArrayFile (file : Option (List UInt8)) : Except Fault StringArray :=
  appendNames 0 (blankOut (readEntireFile file)) allocateStringArray

/-! ## The names are the words -/

/-- The string that starts in the overwritten content ends where the word ends. -/
theorem bytes_ofBytes_blankOut {content : List UInt8} (h : (0 : UInt8) ∉ content) :
    (CString.ofBytes (blankOut content)).bytes = wordAt Blank content := by
  show (blankOut content).takeWhile (· ≠ 0) = content.takeWhile (¬ Blank ·)
  induction content with
  | nil => rfl
  | cons c content ih =>
      rw [List.mem_cons, not_or] at h
      show ((if Blank c then 0 else c) :: blankOut content).takeWhile _ = _
      by_cases hc : Blank c
      · simp [hc]
      · simpa [hc, Ne.symm h.1] using ih h.2

/-- The second loop appends the words that start in the rest of the content. -/
theorem appendNames_eq {content : List UInt8} (h : (0 : UInt8) ∉ content) (prevChar : UInt8) (result : StringArray) :
    appendNames prevChar (blankOut content) result =
      appendAll result ((wordsFrom Blank (prevChar = 0) content).map CString.ofBytes) := by
  induction content generalizing prevChar result with
  | nil => rfl
  | cons c content ih =>
      have hnext := ih (fun h0 => h (List.mem_cons_of_mem _ h0))
      have hc0 : c ≠ 0 := fun h0 => h (h0 ▸ List.mem_cons_self ..)
      rw [wordsFrom_cons]
      show appendNames prevChar ((if Blank c then 0 else c) :: blankOut content) result = _
      by_cases hc : Blank c
      · rw [if_pos hc, if_neg (fun hstart => hstart.2 hc), appendNames, if_neg (fun hstart => hstart.2 rfl), hnext]
        simp [hc]
      · have hword : CString.ofBytes (wordAt Blank (c :: content)) = CString.ofBytes (c :: blankOut content) := by
          rw [← bytes_ofBytes_blankOut h, CString.ofBytes_bytes]
          simp [blankOut, hc]
        rw [if_neg hc, appendNames]
        by_cases hprev : prevChar = 0
        · rw [if_pos ⟨hprev, hc0⟩, if_pos ⟨by simpa using hprev, hc⟩, List.map_cons, hword, appendAll, List.foldlM_cons]
          congr 1
          funext array
          rw [hnext]
          simp [hc0, hc, appendAll]
        · rw [if_neg (fun hstart => hprev hstart.1), if_neg (fun hstart => hprev (by simpa using hstart.1)), hnext]
          simp [hc0, hc]

/-- The usernames of a file. -/
def usernames (content : List UInt8) : List CString := (words Blank content).map CString.ofBytes

theorem readStringArrayFile_eq {file : Option (List UInt8)} (h : (0 : UInt8) ∉ readEntireFile file) :
    readStringArrayFile file = appendAll allocateStringArray (usernames (readEntireFile file)) := by
  rw [readStringArrayFile, appendNames_eq h]
  rfl

/-- A file without a NUL is read word by word. -/
theorem map_bytes_usernames {content : List UInt8} (h : (0 : UInt8) ∉ content) :
    (usernames content).map CString.bytes = words Blank content := by
  rw [usernames, List.map_map]
  apply (List.map_congr_left _).trans (List.map_id _)
  intro word hword
  exact CString.takeWhile_eq_self fun h0 => h (mem_of_mem_words hword h0)

/-- What an array holds after the file was read, and when there is one. -/
theorem readStringArrayFile_cases (file : Option (List UInt8)) (h : (0 : UInt8) ∉ readEntireFile file) :
    ((words Blank (readEntireFile file)).length ≤ maxStrings ∧ ∃ array, readStringArrayFile file = .ok array ∧
      array.strings.map CString.bytes = words Blank (readEntireFile file)) ∨
    (maxStrings < (words Blank (readEntireFile file)).length ∧ readStringArrayFile file = .error .exit) := by
  have hwords := map_bytes_usernames h
  have hlen := congrArg List.length hwords
  rw [List.length_map] at hlen
  rw [readStringArrayFile_eq h, ← hlen, ← hwords]
  rcases appendAll_allocate (usernames (readEntireFile file)) with ⟨hle, array, hrun, hstrings⟩ | ⟨hlt, hrun⟩
  · exact .inl ⟨hle, array, hrun, by rw [hstrings]⟩
  · exact .inr ⟨hlt, hrun⟩

/-- A list of names that a username file can carry. -/
def AreNames (names : List CString) : Prop := ∀ name ∈ names, name.bytes ≠ [] ∧ ∀ c ∈ name.bytes, ¬ Blank c

/-- Blanks around and between names, at least one between two of them. -/
structure AreGaps (count : Nat) (gap : Nat → List UInt8) : Prop where
  blank : ∀ i, ∀ c ∈ gap i, Blank c
  between : ∀ i, 0 < i → i < count → gap i ≠ []

/-- A file with names and gaps. -/
def usernameFile (gap : Nat → List UInt8) (names : List CString) : List UInt8 := layout gap 0 (names.map CString.bytes)

/-- A layout holds what its gaps and its words hold. -/
theorem zero_notMem_usernameFile {gap : Nat → List UInt8} {names : List CString} (hgaps : AreGaps names.length gap) :
    (0 : UInt8) ∉ usernameFile gap names := by
  have hgap : ∀ i, (0 : UInt8) ∉ gap i := fun i h0 => absurd (hgaps.blank i 0 h0) (by decide)
  have hlayout : ∀ (names : List CString) (i : Nat), (0 : UInt8) ∉ layout gap i (names.map CString.bytes) := by
    intro names
    induction names with
    | nil => exact hgap
    | cons name names ih =>
        intro i h0
        rcases List.mem_append.mp h0 with h0 | h0
        · exact hgap i h0
        · rcases List.mem_append.mp h0 with h0 | h0
          · exact name.noNul h0
          · exact ih (i + 1) h0
  exact hlayout names 0

/-- The words of such a file are its names. -/
theorem words_usernameFile {gap : Nat → List UInt8} {names : List CString} (hnames : AreNames names)
    (hgaps : AreGaps names.length gap) : words Blank (usernameFile gap names) = names.map CString.bytes := by
  apply words_layout hgaps.blank
  · intro word hword
    obtain ⟨name, hname, rfl⟩ := List.mem_map.mp hword
    exact hnames name hname
  · rw [List.length_map]
    exact hgaps.between

/-- **Username files.** A file without a NUL is read as its maximal runs of bytes that are not blank, in order, if there
    are at most `maxStrings` of them; with more the program ends. So names written with gaps around them and read back
    are the names. -/
theorem readStringArrayFile_words :
    (∀ file, (0 : UInt8) ∉ readEntireFile file →
      ∃ texts, IsWords Blank (readEntireFile file) texts ∧
        (texts.length ≤ maxStrings →
          ∃ array, readStringArrayFile file = .ok array ∧ array.strings.map CString.bytes = texts) ∧
        (maxStrings < texts.length → readStringArrayFile file = .error .exit)) ∧
    ∀ names gap, AreNames names → AreGaps names.length gap → names.length ≤ maxStrings →
      ∃ array, readStringArrayFile (some (usernameFile gap names)) = .ok array ∧ array.strings = names := by
  constructor
  · intro file h
    refine ⟨_, isWords_words (readEntireFile file), ?_, ?_⟩
    · intro hle
      rcases readStringArrayFile_cases file h with ⟨-, hrun⟩ | ⟨hlt, -⟩
      · exact hrun
      · exact absurd hle (Nat.not_le.mpr hlt)
    · intro hlt
      rcases readStringArrayFile_cases file h with ⟨hle, -⟩ | ⟨-, hrun⟩
      · exact absurd hle (Nat.not_le.mpr hlt)
      · exact hrun
  · intro names gap hnames hgaps hle
    have hwords := words_usernameFile hnames hgaps
    rcases readStringArrayFile_cases (some (usernameFile gap names)) (zero_notMem_usernameFile hgaps)
      with ⟨-, array, hrun, hstrings⟩ | ⟨hlt, -⟩
    · refine ⟨array, hrun, ?_⟩
      rw [readEntireFile_some, hwords] at hstrings
      exact List.map_injective_iff.mpr (fun _ _ => CString.ext) hstrings
    · rw [readEntireFile_some, hwords, List.length_map] at hlt
      exact absurd hle (Nat.not_le.mpr hlt)

/-- One name more than an array can hold. -/
def manyNames : List CString := List.replicate (maxStrings + 1) (CString.lit "a")

theorem readStringArrayFile_counterexample :
    let file := usernameFile (fun _ => [10]) manyNames
    (0 : UInt8) ∉ file ∧ AreNames manyNames ∧ AreGaps manyNames.length (fun _ => [10]) ∧
      readStringArrayFile (some file) = .error .exit := by
  have hnames : AreNames manyNames := by
    intro name hname
    obtain ⟨-, rfl⟩ := List.mem_replicate.mp hname
    decide +kernel
  have hgaps : AreGaps manyNames.length (fun _ => [10]) := by
    refine ⟨?_, fun _ _ _ => List.cons_ne_nil 10 []⟩
    intro _ c hc
    obtain rfl := List.mem_singleton.mp hc
    decide
  have h0 := zero_notMem_usernameFile hgaps
  refine ⟨h0, hnames, hgaps, ?_⟩
  rcases readStringArrayFile_cases (some (usernameFile (fun _ => [10]) manyNames)) h0 with ⟨hle, -⟩ | ⟨-, hrun⟩
  · rw [readEntireFile_some, words_usernameFile hnames hgaps, List.length_map, manyNames,
      List.length_replicate] at hle
    exact absurd hle (Nat.not_succ_le_self _)
  · exact hrun

/-- A file with a name at its start and one behind an empty line. -/
example : (readStringArrayFile (some [97, 98, 13, 10, 10, 32, 99, 10])).map StringArray.strings =
    .ok [CString.ofBytes [97, 98], CString.ofBytes [99]] := by
  decide +kernel

end Hand2
