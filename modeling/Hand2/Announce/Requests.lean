import Hand2.Fetch.Get
import Hand2.Library.JsonText
import Hand2.Library.Loops

/-!
# `Announce.Requests` — `create_issue` and `edit_issue`

Both requests carry the same document, written by hand: a title between quotes, the escaped body between
quotes, the state. `escape_string` knows the eight two-character escapes of JSON and copies every other
byte, and the title does not pass through it. So the data is the document it is meant to be exactly when
there was nothing else to escape (`issueRequests_iff`).
-/

namespace Hand2

open Utf8 JsonText

/-! ## The requests -/

/-- One step of the loop of `escape_string`. -/
def escapeByte (c : UInt8) : List UInt8 :=
  if c = 34 then [92, 34]         -- `"`
  else if c = 92 then [92, 92]    -- `\`
  else if c = 47 then [92, 47]    -- `/`
  else if c = 8 then [92, 98]     -- `\b`
  else if c = 12 then [92, 102]   -- `\f`
  else if c = 10 then [92, 110]   -- `\n`
  else if c = 13 then [92, 114]   -- `\r`
  else if c = 9 then [92, 116]    -- `\t`
  else [c]

/-- No byte is replaced by the terminator. -/
theorem zero_notMem_escapeByte {c : UInt8} (h : c ≠ 0) : (0 : UInt8) ∉ escapeByte c := by
  unfold escapeByte
  repeat' split
  all_goals simp [Ne.symm h]

/-- `escape_string`. -/
def escapeString (string : CString) : CString where
  bytes := string.bytes.flatMap escapeByte
  noNul := by
    intro h
    obtain ⟨c, hc, h0⟩ := List.mem_flatMap.mp h
    apply zero_notMem_escapeByte _ h0
    exact fun hzero => string.noNul (hzero ▸ hc)

/-- The `post_data` of both requests. -/
def issueData (title body : CString) : CString :=
  CString.lit "\x7b\"title\":\"" ++ title ++ CString.lit "\",\"body\":\"" ++ escapeString body ++
    CString.lit "\",\"state\":\"open\"\x7d"

/-- A request with data, as it is handed to `assign_work`. -/
structure IssueRequest where
  url : CString
  header : CString
  postType : CString
  postData : CString
  deriving DecidableEq

/-- `"https://api.github.com/repos/%s/%s/issues"`. -/
def issuesUrl (organization repo : CString) : CString :=
  CString.lit "https://api.github.com/repos/" ++ organization ++ CString.lit "/" ++ repo ++ CString.lit "/issues"

/-- `"https://api.github.com/repos/%s/%s/issues/%d"`. -/
def issueUrl (organization repo : CString) (number : Int) : CString :=
  issuesUrl organization repo ++ CString.lit "/" ++ CString.ofBytes (decimal number)

/-- `assign_github_post_like`, after the url was formatted. -/
def postRequest (text githubToken postType postData : CString) : Except Fault IssueRequest := do
  let url ← formatString maxUrlLen text
  let header ← formatString maxRestHeaderLen (githubHeader githubToken)
  .ok { url, header, postType, postData }

/-- `create_issue`: its request. -/
def createIssue (githubToken organization repo title body : CString) : Except Fault IssueRequest :=
  postRequest (issuesUrl organization repo) githubToken (CString.lit "POST") (issueData title body)

/-- `edit_issue`: its request. -/
def editIssue (githubToken organization repo title body : CString) (issueNumber : Int) :
    Except Fault IssueRequest :=
  postRequest (issueUrl organization repo issueNumber) githubToken (CString.lit "PATCH") (issueData title body)

/-- What a request is made of. -/
theorem eq_of_postRequest {text githubToken postType postData : CString} {request : IssueRequest}
    (h : postRequest text githubToken postType postData = .ok request) :
    request = ⟨text, githubHeader githubToken, postType, postData⟩ := by
  obtain ⟨url, hurl, h⟩ := Loops.bind_eq_ok h
  obtain ⟨header, hheader, h⟩ := Loops.bind_eq_ok h
  injection h with h
  rw [← h, eq_of_formatString hurl, eq_of_formatString hheader]

/-- The data of a request does not depend on where it goes. -/
theorem postData_of_postRequest {text githubToken postType postData : CString} {request : IssueRequest}
    (h : postRequest text githubToken postType postData = .ok request) : request.postData = postData := by
  rw [eq_of_postRequest h]

/-! ## What the data says -/

/-- A text that a C string can carry. -/
structure Text where
  chars : List Char
  noNul : Char.ofNat 0 ∉ chars

/-- The string that carries a text. -/
def Text.cString (text : Text) : CString := ⟨utf8 text.chars, zero_notMem_utf8 text.noNul⟩

@[simp] theorem Text.bytes_cString (text : Text) : text.cString.bytes = utf8 text.chars := rfl

/-- The name of a member. -/
def memberName (name : String) : List Nat := utf16 name.toList

/-- The data is a JSON object with the members title, body and state, and title and body are those. -/
def IsIssueDocument (data : CString) (title body : Text) : Prop :=
  ∃ text members, data.bytes = utf8 text ∧ Document text (.object members) ∧
    (members.map Prod.fst).Perm [memberName "title", memberName "body", memberName "state"] ∧
    (memberName "title", .string (utf16 title.chars)) ∈ members ∧
    (memberName "body", .string (utf16 body.chars)) ∈ members

/-- The control characters that `escape_string` replaces. -/
def EscapedControl (c : Char) : Prop := c.toNat = 8 ∨ c.toNat = 9 ∨ c.toNat = 10 ∨ c.toNat = 12 ∨ c.toNat = 13

instance (c : Char) : Decidable (EscapedControl c) := inferInstanceAs (Decidable (_ ∨ _))

/-- Nothing is left to escape in the title, and no control character that `escape_string` does not know in
    the body. -/
def NothingToEscape (title body : Text) : Prop :=
  (∀ c ∈ title.chars, Unescaped c) ∧ ∀ c ∈ body.chars, 0x20 ≤ c.toNat ∨ EscapedControl c

instance (title body : Text) : Decidable (NothingToEscape title body) :=
  @instDecidableAnd _ _ (List.decidableBAll _ _) (List.decidableBAll _ _)

/-! ## The document as text -/

/-- The character behind the backslash in the escape of `c`. -/
def escapeLetter (c : Char) : Option Char :=
  if c.toNat = 34 then some quote
  else if c.toNat = 92 then some backslash
  else if c.toNat = 47 then some '/'
  else if c.toNat = 8 then some 'b'
  else if c.toNat = 12 then some 'f'
  else if c.toNat = 10 then some 'n'
  else if c.toNat = 13 then some 'r'
  else if c.toNat = 9 then some 't'
  else none

/-- What a character of the body becomes. -/
def escapeChar (c : Char) : List Char :=
  match escapeLetter c with
  | some e => [backslash, e]
  | none   => [c]

/-- What the body becomes. -/
def escapeChars (chars : List Char) : List Char := chars.flatMap escapeChar

theorem escapeByte_of_le {b : UInt8} (h : 128 ≤ b.toNat) : escapeByte b = [b] := by
  have hne : ∀ k : UInt8, k.toNat < 128 → b ≠ k := by
    rintro k hk rfl
    omega
  simp [escapeByte, hne 34 (by decide), hne 92 (by decide), hne 47 (by decide), hne 8 (by decide),
    hne 12 (by decide), hne 10 (by decide), hne 13 (by decide), hne 9 (by decide)]

/-- The escapes, ASCII character by ASCII character. -/
theorem escapeByte_ascii : ∀ n < 128, escapeByte n.toUInt8 = utf8 (escapeChar (Char.ofNat n)) := by
  decide +kernel

/-- Escaping the bytes of a character escapes the character. -/
theorem utf8_escapeChar (c : Char) : (String.utf8EncodeChar c).flatMap escapeByte = utf8 (escapeChar c) := by
  rcases Nat.lt_or_ge c.toNat 128 with hsmall | hlarge
  · rw [utf8EncodeChar_ascii hsmall, List.flatMap_singleton, escapeByte_ascii c.toNat hsmall, Char.ofNat_toNat]
  · -- no byte of the encoding is one that is escaped
    have hcopy : ∀ bytes : List UInt8, (∀ b ∈ bytes, 128 ≤ b.toNat) → bytes.flatMap escapeByte = bytes := by
      intro bytes hbytes
      induction bytes with
      | nil => rfl
      | cons b bytes ih =>
          rw [List.flatMap_cons, escapeByte_of_le (hbytes b (List.mem_cons_self ..)),
            ih fun b' hb' => hbytes b' (List.mem_cons_of_mem _ hb')]
          rfl
    have hnone : escapeLetter c = none := by
      simp only [escapeLetter]
      repeat rw [if_neg (by omega)]
    rw [hcopy _ fun b => le_of_mem_utf8EncodeChar hlarge]
    simp [escapeChar, hnone]

/-- Escaping the bytes of a text escapes the text. -/
theorem bytes_escapeString (text : Text) : (escapeString text.cString).bytes = utf8 (escapeChars text.chars) := by
  show (utf8 text.chars).flatMap escapeByte = _
  induction text.chars with
  | nil => rfl
  | cons c chars ih =>
      show (String.utf8EncodeChar c ++ utf8 chars).flatMap escapeByte = utf8 (escapeChar c ++ escapeChars chars)
      rw [List.flatMap_append, utf8_escapeChar, ih, utf8_append]

/-- The document the data is meant to be. -/
def issueText (title body : List Char) : List Char :=
  '{' :: quote :: ("title".toList ++ quote :: ':' :: quote :: (title ++ quote :: ',' ::
    quote :: ("body".toList ++ quote :: ':' :: quote :: (escapeChars body ++ quote :: ',' ::
    quote :: ("state".toList ++ quote :: ':' :: quote :: ("open".toList ++ quote :: '}' :: []))))))

/-- The data carries that document. -/
theorem bytes_issueData (title body : Text) :
    (issueData title.cString body.cString).bytes = utf8 (issueText title.chars body.chars) := by
  have hopen : (CString.lit "\x7b\"title\":\"").bytes =
      utf8 ('{' :: quote :: ("title".toList ++ quote :: ':' :: quote :: [])) := by decide +kernel
  have hbetween : (CString.lit "\",\"body\":\"").bytes =
      utf8 (quote :: ',' :: quote :: ("body".toList ++ quote :: ':' :: quote :: [])) := by decide +kernel
  have hclose : (CString.lit "\",\"state\":\"open\"\x7d").bytes =
      utf8 (quote :: ',' :: quote :: ("state".toList ++ quote :: ':' ::
        quote :: ("open".toList ++ quote :: '}' :: []))) := by
    decide +kernel
  simp only [issueData, CString.bytes_append, bytes_escapeString, hopen, hbetween, hclose, issueText,
    Text.bytes_cString, utf8_append, utf8_cons, utf8_nil, List.append_assoc, List.append_nil]

/-! ## The body between its quotes -/

/-- The eight escapes: the code of a character, and the letter behind the backslash. -/
def escapes : List (Nat × Char) :=
  [(34, quote), (92, backslash), (47, '/'), (8, 'b'), (12, 'f'), (10, 'n'), (13, 'r'), (9, 't')]

/-- One test of `escapeLetter`. -/
theorem cases_of_ite {p : Prop} [Decidable p] {a : Char} {rest letter : Option Char}
    (h : (if p then some a else rest) = letter) : (p ∧ some a = letter) ∨ (¬ p ∧ rest = letter) := by
  by_cases hp : p
  · exact .inl ⟨hp, (if_pos hp).symm.trans h⟩
  · exact .inr ⟨hp, (if_neg hp).symm.trans h⟩

/-- What is escaped is in the table. -/
theorem mem_escapes {c e : Char} (h : escapeLetter c = some e) : (c.toNat, e) ∈ escapes := by
  unfold escapeLetter at h
  -- one case for each of the eight escapes
  iterate 8
    rcases cases_of_ite h with ⟨hc, he⟩ | ⟨-, h⟩
    · rw [hc, ← Option.some.inj he]
      decide
  cases h

/-- An escape of two characters denotes the character it stands for. -/
theorem escapeUnit_of_escapeLetter {c e : Char} (h : escapeLetter c = some e) :
    escapeUnit e = some c.toNat ∧ utf16Char c = [c.toNat] := by
  have htable : ∀ p ∈ escapes, escapeUnit p.2 = some p.1 ∧ p.1 < 0x10000 := by decide
  obtain ⟨hunit, hsmall⟩ := htable _ (mem_escapes h)
  exact ⟨hunit, utf16Char_of_lt hsmall⟩

/-- What is copied is no quote, no backslash and none of the control characters that are escaped. -/
theorem ne_of_escapeLetter {c : Char} (h : escapeLetter c = none) :
    c ≠ quote ∧ c ≠ backslash ∧ ¬ EscapedControl c := by
  have hchar : c = Char.ofNat c.toNat := (Char.ofNat_toNat c).symm
  refine ⟨?_, ?_, ?_⟩
  · rintro rfl
    exact absurd h (by decide)
  · rintro rfl
    exact absurd h (by decide)
  · rintro (hc | hc | hc | hc | hc)
    all_goals
      rw [hchar, hc] at h
      exact absurd h (by decide)

/-- A character that is copied can be copied unless it is a control character. -/
theorem unescaped_iff_of_escapeLetter {c : Char} (h : escapeLetter c = none) :
    Unescaped c ↔ 0x20 ≤ c.toNat ∨ EscapedControl c := by
  obtain ⟨hquote, hback, hcontrol⟩ := ne_of_escapeLetter h
  constructor
  · exact fun hplain => .inl hplain.1
  · rintro (hlow | hescaped)
    · exact ⟨hlow, hquote, hback⟩
    · exact absurd hescaped hcontrol

/-- What is escaped is no control character beyond those. -/
theorem escaped_of_escapeLetter {c e : Char} (h : escapeLetter c = some e) : 0x20 ≤ c.toNat ∨ EscapedControl c := by
  have htable : ∀ p ∈ escapes, 0x20 ≤ p.1 ∨ p.1 = 8 ∨ p.1 = 9 ∨ p.1 = 10 ∨ p.1 = 12 ∨ p.1 = 13 := by decide
  exact htable _ (mem_escapes h)

/-- An escaped body is read as the body. -/
theorem chars_escapeChars {chars rest : List Char} (h : ∀ c ∈ chars, 0x20 ≤ c.toNat ∨ EscapedControl c) :
    Chars (escapeChars chars ++ quote :: rest) (utf16 chars) rest := by
  induction chars with
  | nil => exact .close
  | cons c chars ih =>
      have htail := ih fun c' hc' => h c' (List.mem_cons_of_mem _ hc')
      have hc := h c (List.mem_cons_self ..)
      rw [show escapeChars (c :: chars) = escapeChar c ++ escapeChars chars from rfl, utf16_cons, List.append_assoc]
      unfold escapeChar
      cases hletter : escapeLetter c with
      | some e =>
          obtain ⟨hunit, hutf16⟩ := escapeUnit_of_escapeLetter hletter
          rw [hutf16]
          exact .escape hunit htail
      | none => exact .plain ((unescaped_iff_of_escapeLetter hletter).mpr hc) htail

/-- Where an escaped body can be read, it holds no control character beyond those. -/
theorem clean_of_chars_escapeChars {chars cs : List Char} {us : List Nat} {rest : List Char}
    (h : Chars (escapeChars chars ++ cs) us rest) : ∀ c ∈ chars, 0x20 ≤ c.toNat ∨ EscapedControl c := by
  induction chars generalizing us with
  | nil => simp
  | cons c chars ih =>
      rw [show escapeChars (c :: chars) = escapeChar c ++ escapeChars chars from rfl, List.append_assoc] at h
      unfold escapeChar at h
      cases hletter : escapeLetter c with
      | some e =>
          rw [hletter] at h
          obtain ⟨hunit, -⟩ := escapeUnit_of_escapeLetter hletter
          obtain ⟨us', -, htail⟩ := chars_escape hunit h
          exact List.forall_mem_cons.mpr ⟨escaped_of_escapeLetter hletter, ih htail⟩
      | none =>
          rw [hletter] at h
          obtain ⟨hquote, hback, -⟩ := ne_of_escapeLetter hletter
          obtain ⟨hplain, us', -, htail⟩ := chars_cons h hquote hback
          exact List.forall_mem_cons.mpr ⟨.inl hplain.1, ih htail⟩

/-! ## The document -/

theorem unescaped_title : ∀ c ∈ "title".toList, Unescaped c := forall_of_all (by decide +kernel)

theorem unescaped_body : ∀ c ∈ "body".toList, Unescaped c := forall_of_all (by decide +kernel)

/-- The members of the document. -/
def issueMembers (title body : Text) : List (List Nat × Json) :=
  [(memberName "title", .string (utf16 title.chars)), (memberName "body", .string (utf16 body.chars)),
    (memberName "state", .string (utf16 "open".toList))]

/-- With nothing left to escape the data is the document. -/
theorem issueDocument_of_nothingToEscape {title body : Text} (h : NothingToEscape title body) :
    IsIssueDocument (issueData title.cString body.cString) title body := by
  have hopen : Chars ("open".toList ++ quote :: '}' :: []) (utf16 "open".toList) ('}' :: []) := by
    apply Chars.of_plain
    exact forall_of_all (by decide +kernel)
  have hmembers := Members.more (Member.of_string _ unescaped_title (Chars.of_plain h.1))
    (.more (Member.of_string _ unescaped_body (chars_escapeChars h.2))
      (.last (Member.of_string "state".toList (forall_of_all (by decide +kernel)) hopen)))
  have hdocument : Document (issueText title.chars body.chars) (.object (issueMembers title body)) :=
    .mk [] [] Ws.nil (.object hmembers) Ws.nil
  refine ⟨_, _, bytes_issueData title body, hdocument, .refl _, ?_, ?_⟩
  · exact List.mem_cons_self ..
  · exact List.mem_cons_of_mem _ (List.mem_cons_self ..)

/-- **The title.** If the first string of the document is the title, nothing in the title needed an escape and
    the string ended where it should. -/
theorem title_of_chars {title : Text} {tail cs' w : List Char} (hw : Ws w)
    (htail : ∃ t, tail = 'b' :: t)
    (h : Chars (title.chars ++ quote :: ',' :: quote :: tail) (utf16 title.chars) (w ++ ',' :: cs')) :
    (∀ c ∈ title.chars, Unescaped c) ∧ cs' = quote :: tail := by
  rcases chars_raw _ _ _ _ h with ⟨hplain, -, hrest⟩ | hless | ⟨us, hpast⟩
  · obtain ⟨-, hcomma⟩ := hw.eq_nil hrest (by decide)
    exact ⟨hplain, (List.cons.inj hcomma).2⟩
  · exact absurd hless (Nat.lt_irrefl _)
  · -- the string would end behind the comma, in front of a letter
    obtain ⟨-, us', -, hquote⟩ := chars_cons hpast (by decide) (by decide)
    obtain ⟨-, hrest⟩ := chars_quote hquote
    obtain ⟨t, rfl⟩ := htail
    obtain ⟨-, hletter⟩ := hw.eq_nil hrest (by decide)
    exact absurd (List.cons.inj hletter).1 (by decide)

/-- Data that is the document had nothing left to escape. -/
theorem nothingToEscape_of_issueDocument {title body : Text}
    (h : IsIssueDocument (issueData title.cString body.cString) title body) : NothingToEscape title body := by
  obtain ⟨text, members, hbytes, hdocument, hperm, htitle, -⟩ := h
  obtain rfl : issueText title.chars body.chars = text := by
    apply utf8_injective
    rw [← bytes_issueData, hbytes]
  -- the names differ, so a member is determined by its name
  have hnodup : (members.map Prod.fst).Nodup := hperm.nodup_iff.mpr (by decide +kernel)
  obtain ⟨w, hw, hvalue⟩ := element_head hdocument (by decide)
  obtain ⟨members', hobject, hmembers⟩ := value_brace hvalue
  obtain rfl := Json.object.inj hobject
  -- the first member is the title
  obtain ⟨m, more, rest, rfl, hfirst, hend⟩ := members_head hmembers
  obtain ⟨w, us, hw, rfl, hchars⟩ := member_string unescaped_title hfirst
  have hus : us = utf16 title.chars := (Json.string.inj (value_of_mem hnodup htitle)).symm
  subst hus
  rcases hend with ⟨rfl, -⟩ | ⟨cs', rfl, hmore⟩
  · exact absurd hperm.length_eq (by simp)
  obtain ⟨hplain, rfl⟩ := title_of_chars hw ⟨_, rfl⟩ hchars
  -- the second one is the body
  obtain ⟨_, _, _, -, hsecond, -⟩ := members_head hmore
  obtain ⟨_, _, -, -, hbody⟩ := member_string unescaped_body hsecond
  exact ⟨hplain, clean_of_chars_escapeChars hbody⟩

/-- The data of the requests is the document exactly when nothing was left to escape. -/
theorem issueData_iff (title body : Text) :
    IsIssueDocument (issueData title.cString body.cString) title body ↔ NothingToEscape title body :=
  ⟨nothingToEscape_of_issueDocument, issueDocument_of_nothingToEscape⟩

/-- **The requests.** Whatever title and body `create_issue` and `edit_issue` are given, the data they send is a
    JSON object with the members title, body and state that says this title and this body if and only if the
    title needs no escape and the body no escape that `escape_string` does not know. -/
theorem issueRequests_iff (githubToken organization repo : CString) (title body : Text) (issueNumber : Int) :
    (∀ request, createIssue githubToken organization repo title.cString body.cString = .ok request →
      (IsIssueDocument request.postData title body ↔ NothingToEscape title body)) ∧
    (∀ request, editIssue githubToken organization repo title.cString body.cString issueNumber = .ok request →
      (IsIssueDocument request.postData title body ↔ NothingToEscape title body)) := by
  constructor
  · intro request hcreate
    rw [postData_of_postRequest hcreate]
    exact issueData_iff title body
  · intro request hedit
    rw [postData_of_postRequest hedit]
    exact issueData_iff title body

/-- A request whose url and header fit is made. -/
theorem postRequest_ok (text githubToken postType postData : CString) (hurl : text.length < maxUrlLen)
    (hheader : (githubHeader githubToken).length < maxRestHeaderLen) :
    postRequest text githubToken postType postData =
      .ok { url := text, header := githubHeader githubToken, postType, postData } := by
  rw [postRequest, formatString_ok hurl, formatString_ok hheader]
  rfl

/-- A title and a body with a line break. -/
def plainTitle : Text := ⟨"Grade for hw1".toList, by decide +kernel⟩

def plainBody : Text := ⟨"12/20\n".toList, by decide +kernel⟩

/-- A title with quotes, and a body with the terminal code for bold text. -/
def quotedTitle : Text := ⟨"Grade for \"hw1\"".toList, by decide +kernel⟩

def boldBody : Text := ⟨Char.ofNat 27 :: "[1m12/20".toList, by decide +kernel⟩

theorem issueRequests_plain :
    ∃ request, createIssue (CString.lit "ghp_x") (CString.lit "course") (CString.lit "hw1-ann") plainTitle.cString
        plainBody.cString = .ok request ∧ IsIssueDocument request.postData plainTitle plainBody := by
  have hcreate := postRequest_ok (issuesUrl (CString.lit "course") (CString.lit "hw1-ann"))
    (CString.lit "ghp_x") (CString.lit "POST") (issueData plainTitle.cString plainBody.cString) (by decide +kernel)
    (by decide +kernel)
  have hdocument := (issueRequests_iff (CString.lit "ghp_x") (CString.lit "course") (CString.lit "hw1-ann") plainTitle
    plainBody 1).1 _ hcreate
  exact ⟨_, hcreate, hdocument.mpr (by decide +kernel)⟩

/-- A quoted title and a body in bold each spoil the data. -/
theorem issueRequests_spoiled :
    (∃ request, createIssue (CString.lit "ghp_x") (CString.lit "course") (CString.lit "hw1-ann") quotedTitle.cString
        plainBody.cString = .ok request ∧ ¬ IsIssueDocument request.postData quotedTitle plainBody) ∧
    (∃ request, editIssue (CString.lit "ghp_x") (CString.lit "course") (CString.lit "hw1-ann") plainTitle.cString
        boldBody.cString 1 = .ok request ∧ ¬ IsIssueDocument request.postData plainTitle boldBody) := by
  constructor
  · refine ⟨_, postRequest_ok _ _ _ _ (by decide +kernel) (by decide +kernel), ?_⟩
    rw [issueData_iff]
    decide +kernel
  · refine ⟨_, postRequest_ok _ _ _ _ (by decide +kernel) (by decide +kernel), ?_⟩
    rw [issueData_iff]
    decide +kernel

end Hand2
