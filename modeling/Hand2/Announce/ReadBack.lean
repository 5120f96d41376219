import Hand2.Announce.Escaped
import Hand2.Json.Document

/-!
# `Announce.ReadBack` — the data of a request, read with cJSON

The program writes JSON by hand and reads it with the vendored parser. The two fit: the parser takes the data of a
request to an object with the title, the body and the state, for every body there is, whatever its bytes. The title is
not escaped, so it must have nothing that the parser would take for a quote or an escape.
-/

namespace Hand2

namespace CJson

/-- The content of a string in quotes, and the bytes it stands for. -/
inductive Coded : List UInt8 → List UInt8 → Prop where
  | nil : Coded [] []
  | plain {b : UInt8} {content bytes : List UInt8} (hquote : b ≠ quote) (hback : b ≠ backslash)
      (h : Coded content bytes) : Coded (b :: content) (b :: bytes)
  | escape {b c : UInt8} {content bytes : List UInt8}
      (hsequence : ∀ behind left, escapeSequence (backslash :: b :: behind) left = .ok (some (2, [c])))
      (h : Coded content bytes) : Coded (backslash :: b :: content) (c :: bytes)

theorem coded_plain {bytes : List UInt8} (h : PlainBytes bytes) : Coded bytes bytes := by
  induction bytes with
  | nil => exact .nil
  | cons b bytes ih =>
      obtain ⟨hquote, hback⟩ := h b List.mem_cons_self
      exact .plain hquote hback (ih fun c hc => h c (List.mem_cons_of_mem _ hc))

/-- The parser knows the escapes that `escape_string` writes. -/
theorem escapeSequence_letter {b c : UInt8} (h : jsonLetter c = some b) (behind : ParseBuffer) (left : Nat) :
    escapeSequence (backslash :: b :: behind) left = .ok (some (2, [c])) := by
  unfold jsonLetter at h
  -- one case for each of the eight escapes
  split_ifs at h with hc hc hc hc hc hc hc hc
  all_goals
    cases h
    rw [hc]
    rfl

/-- The output of `escape_string` stands for its string. -/
theorem coded_escapeString (string : CString) : Coded (escapeString string).bytes string.bytes := by
  rw [bytes_escapeString_eq]
  induction string.bytes with
  | nil => exact .nil
  | cons c bytes ih =>
      show Coded (jsonCode.escapeItem c ++ jsonCode.escape bytes) (c :: bytes)
      unfold Escaping.Code.escapeItem
      cases hletter : jsonCode.letter c with
      | some b => exact .escape (escapeSequence_letter hletter) ih
      | none =>
          have hquote : c ≠ quote := by
            rintro rfl
            cases hletter
          have hback : c ≠ backslash := by
            rintro rfl
            cases hletter
          exact .plain hquote hback ih

/-- The first loop finds the closing quote. -/
theorem scanString_coded {content bytes : List UInt8} (h : Coded content bytes) (behind : ParseBuffer) :
    ∃ skipped, scanString (content ++ quote :: behind) = some (content.length, skipped) := by
  induction h with
  | nil =>
      refine ⟨0, ?_⟩
      rw [List.nil_append, scanString.eq_def]
      rfl
  | @plain b content bytes hquote hback _ ih =>
      obtain ⟨skipped, hscan⟩ := ih
      refine ⟨skipped, ?_⟩
      have hplain : PlainBytes [b] := fun c hc => by
        obtain rfl := List.mem_singleton.mp hc
        exact ⟨hquote, hback⟩
      have hfront := scanString_plain hplain (content ++ quote :: behind)
      rw [List.singleton_append, hscan] at hfront
      exact hfront
  | escape _ _ ih =>
      obtain ⟨skipped, hscan⟩ := ih
      refine ⟨skipped + 1, ?_⟩
      rw [List.cons_append, List.cons_append, scanString_backslash, hscan]
      rfl

/-- The second loop gives the bytes, if it ends. -/
theorem unescapeLoop_coded {size : Nat} {content bytes : List UInt8} (h : Coded content bytes) {behind : ParseBuffer}
    {fuel : Nat} {output : List UInt8} {result : Option (List UInt8)} (hfuel : content.length ≤ fuel)
    (hrun : unescapeLoop size fuel (content ++ behind) content.length output = .ok result) :
    result = some (output ++ bytes) := by
  induction h generalizing fuel output with
  | nil =>
      have hdone : unescapeLoop size fuel behind 0 output = .ok (some output) := by cases fuel <;> rfl
      rw [List.length_nil, List.nil_append, hdone] at hrun
      rw [List.append_nil]
      exact (Except.ok.inj hrun).symm
  | @plain b content bytes hquote hback _ ih =>
      have hplain : PlainBytes [b] := fun c hc => by
        obtain rfl := List.mem_singleton.mp hc
        exact ⟨hquote, hback⟩
      have hlen : (b :: content).length = [b].length + content.length := by
        rw [List.length_cons, List.length_singleton, Nat.add_comm]
      rw [hlen] at hfuel hrun
      obtain ⟨fuel', hfuel', hrest⟩ := unescapeLoop_plain hplain hfuel hrun
      rw [ih hfuel' hrest, List.append_assoc, List.singleton_append]
  | @escape b c content bytes hsequence _ ih =>
      have hlen : (backslash :: b :: content).length = content.length + 1 + 1 := rfl
      rw [hlen] at hfuel hrun
      obtain ⟨fuel', hfuel', hrest⟩ := unescapeLoop_sequence (hsequence (content ++ behind) _) (by decide) hfuel hrun
      have hleft : content.length + 1 + 1 - 2 = content.length := by omega
      rw [hleft] at hfuel' hrest
      rw [ih hfuel' hrest, List.append_assoc, List.singleton_append]

theorem terminated_append {rest : ParseBuffer} (h : Terminated rest) (bytes : List UInt8) :
    Terminated (bytes ++ rest) := by
  unfold Terminated at h ⊢
  rw [List.getLast?_append, h]
  rfl

/-- **`parse_string` gives the bytes.** -/
theorem parseString_coded {content bytes : List UInt8} (h : Coded content bytes) {rest : ParseBuffer}
    (hrest : Terminated rest) :
    parseString (quote :: (content ++ quote :: rest)) = .ok (some (bytes ++ [0], rest)) := by
  have hterm : Terminated (quote :: (content ++ quote :: rest)) := by
    have hall := terminated_append hrest (quote :: (content ++ [quote]))
    rwa [List.cons_append, List.append_assoc, List.singleton_append] at hall
  obtain ⟨skipped, hscan⟩ := scanString_coded h rest
  obtain ⟨result, hresult, -⟩ := parseString_safe _ hterm
  rw [hresult]
  unfold parseString at hresult
  rw [readAt_zero, Loops.ok_bind, if_neg (not_not.mpr rfl), List.drop_one, List.tail_cons, hscan] at hresult
  obtain ⟨output, hloop, hresult⟩ := Loops.bind_eq_ok hresult
  rw [unescapeLoop_coded h (Nat.le_refl _) hloop] at hresult
  obtain ⟨out, hout, hresult⟩ := Loops.bind_eq_ok hresult
  rw [eq_of_writeOutput hout] at hresult
  cases hresult
  simp

section Object

variable {strtod : Strtod} {nesting : Nat} {content bytes : List UInt8} {rest : ParseBuffer}

theorem parseValue_coded (h : Coded content bytes) (hrest : Terminated rest) :
    parseValue strtod nesting (quote :: (content ++ quote :: rest))
      = .ok (some (.string (CString.ofBytes bytes), rest)) := by
  rw [parseValue_head (by decide) (by decide) (by decide), if_pos rfl, parseString_coded h hrest, Loops.ok_bind,
    Option.map_some, CString.ofBytes_append_zero]

/-- A member whose value is a string, written without whitespace. -/
def memberBytes (name : CString) (content : List UInt8) (rest : ParseBuffer) : ParseBuffer :=
  quote :: (name.bytes ++ quote :: colon :: quote :: (content ++ quote :: rest))

theorem skipWhitespace_token {c : UInt8} (h : ¬ c ≤ 32) (behind : ParseBuffer) :
    bufferSkipWhitespace (c :: behind) = c :: behind := by
  unfold bufferSkipWhitespace
  rw [List.dropWhile_cons_of_neg (by simpa using h)]

/-- One round of the loop over the members. -/
theorem objectLoop_memberBytes {name : CString} (hname : PlainBytes name.bytes) (h : Coded content bytes)
    {c : UInt8} {behind : ParseBuffer} (hrest : Terminated (c :: behind)) (hc : ¬ c ≤ 32) (n : Nat) :
    objectLoop (parseValue strtod nesting) (n + 1) (memberBytes name content (c :: behind)) =
      if c = comma then do
        let members ← objectLoop (parseValue strtod nesting) n behind
        .ok (members.map fun members => ((name, .string (CString.ofBytes bytes)) :: members.1, members.2))
      else .ok (some ([(name, .string (CString.ofBytes bytes))], c :: behind)) := by
  have hvalue : Terminated (colon :: quote :: (content ++ quote :: c :: behind)) := by
    have hall := terminated_append hrest (colon :: quote :: (content ++ [quote]))
    rwa [List.cons_append, List.cons_append, List.append_assoc, List.singleton_append] at hall
  rw [objectLoop, memberBytes, skipWhitespace_token (by decide), parseString_coded (coded_plain hname) hvalue,
    Loops.ok_bind]
  dsimp only
  rw [skipWhitespace_token (by decide), if_neg (by simp), List.drop_one, List.tail_cons,
    skipWhitespace_token (by decide), parseValue_coded h hrest, Loops.ok_bind]
  dsimp only
  rw [skipWhitespace_token hc, CString.ofBytes_append_zero, CString.ofBytes_bytes, List.drop_one, List.tail_cons,
    List.head?_cons]
  by_cases hcomma : c = comma
  · rw [if_pos hcomma, if_pos (congrArg some hcomma)]
  · rw [if_neg hcomma, if_neg fun h => hcomma (Option.some.inj h)]

/-- An object, once the loop over its members has come to the brace. -/
theorem parseObject_members {p : ValueParser} {buffer behind : ParseBuffer} {members : List (CString × CJson)}
    (hskip : bufferSkipWhitespace buffer = buffer) (hhead : buffer.head? ≠ some closeBrace) (hne : buffer ≠ [])
    (hloop : objectLoop p buffer.length buffer = .ok (some (members, closeBrace :: behind))) :
    parseObject p (openBrace :: buffer) = .ok (some (.object members, behind)) := by
  unfold parseObject
  rw [List.drop_one, List.tail_cons, hskip]
  dsimp only
  rw [if_neg hhead, if_neg hne, hloop, Loops.ok_bind]
  rfl

end Object

end CJson

open CJson

/-- The members of the data, from the last to the first. -/
def stateBytes : ParseBuffer := memberBytes (CString.lit "state") (CString.lit "open").bytes [CJson.closeBrace, 0]

def bodyBytes (body : CString) : ParseBuffer :=
  memberBytes (CString.lit "body") (escapeString body).bytes (comma :: stateBytes)

def titleBytes (title body : CString) : ParseBuffer :=
  memberBytes (CString.lit "title") title.bytes (comma :: bodyBytes body)

/-- The data of a request, member by member. -/
theorem members_issueData (title body : CString) :
    (issueData title body).bytes ++ [0] = CJson.openBrace :: titleBytes title body := by
  have hfirst : (CString.lit "\x7b\"title\":\"").bytes
      = CJson.openBrace :: CJson.quote :: ((CString.lit "title").bytes ++ [CJson.quote, colon, CJson.quote]) := by
    decide +kernel
  have hsecond : (CString.lit "\",\"body\":\"").bytes
      = CJson.quote :: comma :: CJson.quote :: ((CString.lit "body").bytes ++ [CJson.quote, colon, CJson.quote]) := by
    decide +kernel
  have hthird : (CString.lit "\",\"state\":\"open\"\x7d").bytes
      = CJson.quote :: comma :: CJson.quote :: ((CString.lit "state").bytes ++ CJson.quote :: colon :: CJson.quote ::
        ((CString.lit "open").bytes ++ [CJson.quote, CJson.closeBrace])) := by
    decide +kernel
  simp only [issueData, CString.bytes_append, hfirst, hsecond, hthird, titleBytes, bodyBytes, stateBytes, memberBytes,
    List.append_assoc, List.cons_append, List.nil_append]

theorem terminated_stateBytes : Terminated (comma :: stateBytes) := rfl

theorem terminated_bodyBytes (body : CString) : Terminated (comma :: bodyBytes body) := by
  have hall := terminated_append terminated_stateBytes (comma :: CJson.quote :: ((CString.lit "body").bytes ++
    CJson.quote :: colon :: CJson.quote :: ((escapeString body).bytes ++ [CJson.quote])))
  simpa only [bodyBytes, memberBytes, List.append_assoc, List.cons_append, List.nil_append] using hall

/-- The loop over the members: three rounds, the last of which stops at the brace. -/
theorem objectLoop_titleBytes (strtod : Strtod) (nesting : Nat) {title : CString} (htitle : PlainBytes title.bytes)
    (body : CString) :
    objectLoop (parseValue strtod nesting) (titleBytes title body).length (titleBytes title body) =
      .ok (some ([(CString.lit "title", .string title), (CString.lit "body", .string body),
        (CString.lit "state", .string (CString.lit "open"))], [CJson.closeBrace, 0])) := by
  have hnames : PlainBytes (CString.lit "title").bytes ∧ PlainBytes (CString.lit "body").bytes ∧
      PlainBytes (CString.lit "state").bytes ∧ PlainBytes (CString.lit "open").bytes := by
    unfold PlainBytes
    decide +kernel
  obtain ⟨hnTitle, hnBody, hnState, hopen⟩ := hnames
  have hrounds : ∃ n, (titleBytes title body).length = n + 3 := by
    refine ⟨_, Eq.symm (Nat.sub_add_cancel ?_)⟩
    simp only [titleBytes, memberBytes, List.length_cons, List.length_append]
    omega
  obtain ⟨n, hn⟩ := hrounds
  have hend : Terminated [CJson.closeBrace, 0] := rfl
  rw [hn, titleBytes, objectLoop_memberBytes hnTitle (coded_plain htitle) (terminated_bodyBytes body) (by decide),
    if_pos rfl, bodyBytes, objectLoop_memberBytes hnBody (coded_escapeString body) terminated_stateBytes (by decide),
    if_pos rfl, stateBytes, objectLoop_memberBytes hnState (coded_plain hopen) hend (by decide), if_neg (by decide)]
  simp only [Loops.ok_bind, Option.map_some, CString.ofBytes_bytes]

/-- **What the program writes, its own parser reads.** Whatever the body is, the parser takes the data of a request to
    the object with that title, that body and the state, if the title has neither quotes nor backslashes. -/
theorem issueData_readBack (strtod : Strtod) (title body : CString) (htitle : PlainBytes title.bytes) :
    parse strtod (issueData title body) = .ok (some (.object [(CString.lit "title", .string title),
      (CString.lit "body", .string body), (CString.lit "state", .string (CString.lit "open"))])) := by
  have hbom : skipUtf8Bom (CJson.openBrace :: titleBytes title body) = CJson.openBrace :: titleBytes title body := by
    unfold skipUtf8Bom
    rw [if_neg]
    rintro ⟨-, htake⟩
    exact absurd (List.cons.inj htake).1 (by decide)
  have hskip : bufferSkipWhitespace (titleBytes title body) = titleBytes title body :=
    skipWhitespace_token (by decide) _
  have hhead : (titleBytes title body).head? = some CJson.quote := rfl
  have hobject := parseObject_members hskip (by rw [hhead]; decide) (List.cons_ne_nil _ _)
    (objectLoop_titleBytes strtod 999 htitle body)
  have hlimit : nestingLimit = 999 + 1 := rfl
  unfold parse
  rw [members_issueData, hbom, skipWhitespace_token (by decide), hlimit, parseValue_brace]
  dsimp only
  rw [hobject]
  rfl

theorem issueData_readBack_lines :
    parse integerStrtod (issueData (CString.lit "hw1") (CString.lit "a\n\"b\"\\")) =
      .ok (some (.object [(CString.lit "title", .string (CString.lit "hw1")),
        (CString.lit "body", .string (CString.lit "a\n\"b\"\\")),
        (CString.lit "state", .string (CString.lit "open"))])) := by
  have htitle : PlainBytes (CString.lit "hw1").bytes := by
    unfold PlainBytes
    decide +kernel
  exact issueData_readBack integerStrtod _ _ htitle

end Hand2
