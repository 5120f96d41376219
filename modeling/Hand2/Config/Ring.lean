import Hand2.Config.Indexed

/-!
# `Config.Ring` — the four slots of the parser

`peek_token` and `eat_token` in any order. The parser sees the sequence of tokens that `lex_token` gives when it is
called again and again, and its ring is a window on that sequence: behind the tokens that were eaten, it holds the next
ones that were lexed, at most three, and none is lexed again (`ring_transparent`). That is said of a parser that counts
the calls of `lex_token` and writes the number of the call next to each token; forgetting the numbers gives the parser
itself (`runCalls_numbered`).
-/

namespace Hand2.Indexed

open Lookahead (Ring Holds fetch items numbered)

/-- A call; the parser peeks at three tokens at most. -/
inductive TokenCall where
  | peek (lookahead : Fin 3)
  | eat

/-- The number of tokens that calls eat. -/
def eatenBy : List TokenCall → Nat
  | []                => 0
  | .peek _ :: calls  => eatenBy calls
  | .eat :: calls     => eatenBy calls + 1

/-- A parser that counts its calls of `lex_token`, and numbers the tokens by them. -/
abbrev NumberedParser := Ring (Cursor × Nat) (Token × Nat)

/-- The parser without the numbers. -/
def NumberedParser.erase (parser : NumberedParser) : ConfigParser := parser.map Prod.fst Prod.fst

section Calls

variable (content : List UInt8)

/-- The tokens that a new parser gives, call of `lex_token` by call. -/
def tokens : Nat → Token := items (lexToken content) initConfigParser.source

/-- What a call leaves. -/
def TokenCall.run (parser : ConfigParser) : TokenCall → ConfigParser
  | .peek lookahead => (peekToken content parser lookahead).2
  | .eat            => eatToken content parser

/-- What calls leave of a new parser. -/
def runCalls (calls : List TokenCall) : ConfigParser := calls.foldl (TokenCall.run content) initConfigParser

/-- A new parser that has not called `lex_token`. -/
def initNumbered : NumberedParser := ⟨(initConfigParser.source, 0), 0, 0, fun _ => (.zero, 0)⟩

/-- What a call leaves, with the numbers. -/
def TokenCall.runNumbered (parser : NumberedParser) : TokenCall → NumberedParser
  | .peek lookahead => (Lookahead.peek (numbered (lexToken content)) configLookaheads parser lookahead).2
  | .eat            => Lookahead.eat (numbered (lexToken content)) configLookaheads parser

/-- What calls leave of a new parser, with the numbers. -/
def runNumbered (calls : List TokenCall) : NumberedParser := calls.foldl (TokenCall.runNumbered content) initNumbered

/-- The first `rounds` rounds of the loop of `peek_token`. -/
def peekRounds (parser : ConfigParser) (rounds : Nat) : ConfigParser :=
  (List.range rounds).foldl (fetch (lexToken content) configLookaheads) parser

/-- The rounds with the numbers. -/
def peekRoundsNumbered (parser : NumberedParser) (rounds : Nat) : NumberedParser :=
  (List.range rounds).foldl (fetch (numbered (lexToken content)) configLookaheads) parser

/-- Behind `eaten` tokens, the ring holds the next `buffered` ones, which are the last that were lexed. -/
structure Window (parser : NumberedParser) (eaten buffered : Nat) : Prop where
  lexed : parser.source.2 = eaten + buffered
  empty_iff : parser.toRead = parser.toWrite ↔ buffered = 0
  slots : ∀ i < buffered,
    parser.slots ((parser.toRead + i) % configLookaheads) = (tokens content (eaten + i), eaten + i)

end Calls

/-! ## Forgetting the numbers -/

section Erase

variable {content : List UInt8}

theorem peekRounds_numbered (parser : NumberedParser) (rounds : Nat) :
    (peekRoundsNumbered content parser rounds).erase = peekRounds content parser.erase rounds :=
  (Lookahead.fetch_loop_map (fun _ => rfl) configLookaheads parser (List.range rounds)).symm

theorem peekToken_numbered (parser : NumberedParser) (lookahead : Nat) :
    peekToken content parser.erase lookahead =
      ((Lookahead.peek (numbered (lexToken content)) configLookaheads parser lookahead).1.1,
        NumberedParser.erase (Lookahead.peek (numbered (lexToken content)) configLookaheads parser lookahead).2) :=
  Lookahead.peek_map (fun _ => rfl) configLookaheads parser lookahead

theorem TokenCall.run_numbered (call : TokenCall) (parser : NumberedParser) :
    (call.runNumbered content parser).erase = call.run content parser.erase := by
  cases call with
  | peek lookahead => exact (congrArg Prod.snd (peekToken_numbered parser lookahead.val)).symm
  | eat => exact (Lookahead.eat_map (fun _ => rfl) configLookaheads parser).symm

/-- Calls do the same to a parser with numbers. -/
theorem runCalls_numbered (calls : List TokenCall) : (runNumbered content calls).erase = runCalls content calls := by
  unfold runNumbered runCalls
  rw [show initConfigParser = initNumbered.erase from rfl]
  generalize initNumbered = parser
  induction calls generalizing parser with
  | nil => rfl
  | cons call calls ih =>
      rw [List.foldl_cons, List.foldl_cons, ← TokenCall.run_numbered]
      exact ih _

end Erase

/-! ## The window -/

section Window

variable {content : List UInt8} {parser : NumberedParser}

/-- The tokens behind the first `eaten` ones, with their numbers. -/
def tokensBehind (content : List UInt8) (eaten : Nat) (i : Nat) : Token × Nat :=
  (tokens content (eaten + i), eaten + i)

/-- The ring holds the next `buffered` tokens. -/
abbrev HoldsNext (content : List UInt8) (parser : NumberedParser) (eaten buffered : Nat) : Prop :=
  Holds (numbered (lexToken content)) configLookaheads parser (tokensBehind content eaten) buffered

theorem holdsNext_init (content : List UInt8) : HoldsNext content initNumbered 0 0 := by
  refine ⟨by decide, by decide, rfl, ?_, ?_⟩
  · intro i hi
    exact absurd hi (Nat.not_lt_zero i)
  · intro i
    show items (numbered (lexToken content)) (initConfigParser.source, 0) i = _
    rw [Lookahead.items_numbered, Nat.zero_add]
    show _ = (tokens content (0 + i), 0 + i)
    rw [Nat.zero_add]
    rfl

/-- What comes behind one more token. -/
theorem tokensBehind_succ (eaten : Nat) :
    (fun i => tokensBehind content eaten (i + 1)) = tokensBehind content (eaten + 1) := by
  funext i
  unfold tokensBehind
  rw [Nat.add_right_comm, Nat.add_assoc]

/-- The rounds of a peek. -/
theorem peekRounds_holdsNext {eaten buffered : Nat} (h : HoldsNext content parser eaten buffered) {rounds : Nat}
    (hrounds : rounds ≤ 3) :
    HoldsNext content (peekRoundsNumbered content parser rounds) eaten (max buffered rounds) :=
  Lookahead.fetch_loop_holds h rounds (by unfold configLookaheads; omega)

/-- One call. -/
theorem call_holdsNext {eaten buffered : Nat} (h : HoldsNext content parser eaten buffered) (call : TokenCall) :
    ∃ buffered', HoldsNext content (call.runNumbered content parser) (eaten + eatenBy [call]) buffered' := by
  cases call with
  | peek lookahead => exact ⟨_, peekRounds_holdsNext h (show lookahead.val + 1 ≤ 3 by omega)⟩
  | eat =>
      have heat := Lookahead.eat_holds h (by decide)
      rw [tokensBehind_succ] at heat
      exact ⟨_, heat⟩

/-- Any calls. -/
theorem calls_holdsNext {eaten buffered : Nat} (h : HoldsNext content parser eaten buffered) (calls : List TokenCall) :
    ∃ buffered', HoldsNext content (calls.foldl (TokenCall.runNumbered content) parser) (eaten + eatenBy calls)
      buffered' := by
  induction calls generalizing parser eaten buffered with
  | nil => exact ⟨buffered, h⟩
  | cons call calls ih =>
      obtain ⟨_, hcall⟩ := call_holdsNext h call
      obtain ⟨buffered', hcalls⟩ := ih hcall
      refine ⟨buffered', ?_⟩
      have heaten : eatenBy (call :: calls) = eatenBy [call] + eatenBy calls := by
        cases call with
        | peek _ => exact (Nat.zero_add _).symm
        | eat => exact Nat.add_comm _ _
      rwa [heaten, ← Nat.add_assoc]

/-- The calls of `lex_token` are those whose tokens were eaten or are held. -/
theorem HoldsNext.window {eaten buffered : Nat} (h : HoldsNext content parser eaten buffered) :
    Window content parser eaten buffered where
  lexed := by
    have hnext := h.item_eq 0
    exact congrArg Prod.snd hnext
  empty_iff := h.empty_iff
  slots := h.slot_eq

/-- **The ring is transparent.** Behind any calls, a peek returns the token that comes so many behind those eaten, of
    all that `lex_token` gives. Throughout the next call, the ring holds the tokens that were lexed and not eaten, each
    lexed once, and at most three. -/
theorem ring_transparent (content : List UInt8) (calls : List TokenCall) :
    (∀ lookahead : Fin 3, (peekToken content (runCalls content calls) lookahead).1 =
      tokens content (eatenBy calls + lookahead)) ∧
    ∀ rounds ≤ 3,
      (peekRoundsNumbered content (runNumbered content calls) rounds).erase =
        peekRounds content (runCalls content calls) rounds ∧
      ∃ buffered ≤ 3, Window content (peekRoundsNumbered content (runNumbered content calls) rounds)
        (eatenBy calls) buffered := by
  obtain ⟨buffered, hcalls⟩ := calls_holdsNext (holdsNext_init content) calls
  rw [Nat.zero_add] at hcalls
  refine ⟨?_, ?_⟩
  · intro lookahead
    have hloop := peekRounds_holdsNext hcalls (show lookahead.val + 1 ≤ 3 by omega)
    have hslot := hloop.slot_eq lookahead.val (by omega)
    rw [← runCalls_numbered, peekToken_numbered]
    exact congrArg Prod.fst hslot
  · intro rounds hrounds
    have hloop := peekRounds_holdsNext hcalls hrounds
    refine ⟨?_, max buffered rounds, Nat.le_of_lt_succ hloop.count_lt, hloop.window⟩
    rw [peekRounds_numbered, runCalls_numbered]

end Window

end Hand2.Indexed
