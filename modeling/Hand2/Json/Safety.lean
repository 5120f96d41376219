import Mathlib
import Hand2.Json.Parse
import Hand2.Library.Loops

/-!
# `Json.Safety` — the parser stays inside its memory

The two loops of `parse_string` do not agree on where an escape sequence ends: the first skips two bytes, the second
twelve at most, and a `\u` whose digits are none may take a backslash of the next sequence with it. So the second loop
runs with the first either in step or one byte behind (`Scans`). Either way `n` bytes of the input account for at least
`n / 2` of the bytes that were allocated, which is what a sequence of `n` bytes writes at most.
-/

namespace Hand2

namespace CJson

/-! ## The two loops of `parse_string` -/

/-- Where the second loop is, as the first saw it: `left` bytes in front of the closing quote, with `skipped` more to
    skip, and at the start of what the first loop takes next, or at the byte behind a backslash. -/
inductive Scans : Bool → ParseBuffer → Nat → Nat → Prop where
  | inStep {input : ParseBuffer} {left skipped : Nat} (hscan : scanString input = some (left, skipped)) :
      Scans true input left skipped
  | behind {c : UInt8} {input : ParseBuffer} {left skipped : Nat} (hscan : scanString input = some (left, skipped)) :
      Scans false (c :: input) (left + 1) skipped

/-- A round of the first loop. -/
theorem scanString_cases {c : UInt8} {input : ParseBuffer} {left skipped : Nat}
    (h : scanString (c :: input) = some (left + 1, skipped)) :
    (c ≠ quote ∧ c ≠ backslash ∧ scanString input = some (left, skipped)) ∨
      c = backslash ∧ ∃ skipped', skipped = skipped' + 1 ∧ Scans false input left skipped' := by
  rw [scanString.eq_def] at h
  dsimp only at h
  split at h
  · cases h
  · next hquote =>
      split at h
      · next hback =>
          split at h
          · cases h
          · obtain ⟨⟨len, count⟩, hscan, heq⟩ := Option.map_eq_some_iff.mp h
            obtain ⟨hleft, hskipped⟩ := Prod.mk.inj heq
            refine .inr ⟨hback, count, hskipped.symm, ?_⟩
            have hlen : left = len + 1 := by
              dsimp only at hleft
              omega
            rw [hlen]
            exact .behind hscan
      · next hback =>
          obtain ⟨⟨len, count⟩, hscan, heq⟩ := Option.map_eq_some_iff.mp h
          obtain ⟨hleft, hskipped⟩ := Prod.mk.inj heq
          have hlen : left = len := by
            dsimp only at hleft
            omega
          rw [hlen, ← hskipped]
          exact .inl ⟨hquote, hback, hscan⟩

/-- The closing quote is where the first loop says. -/
theorem scanString_quote {input : ParseBuffer} {left skipped : Nat} (h : scanString input = some (left, skipped)) :
    input[left]? = some quote := by
  fun_induction scanString input generalizing left skipped with
  | case1 => cases h
  | case2 =>
      cases h
      rfl
  | case3 => cases h
  | case4 _ _ _ ih =>
      obtain ⟨⟨len, count⟩, hscan, heq⟩ := Option.map_eq_some_iff.mp h
      cases heq
      exact ih hscan
  | case5 _ _ _ _ ih =>
      obtain ⟨⟨len, count⟩, hscan, heq⟩ := Option.map_eq_some_iff.mp h
      cases heq
      exact ih hscan

/-- The bytes that are skipped are half of the bytes at most. -/
theorem scanString_skipped {input : ParseBuffer} {left skipped : Nat} (h : scanString input = some (left, skipped)) :
    2 * skipped ≤ left := by
  fun_induction scanString input generalizing left skipped with
  | case1 => cases h
  | case2 =>
      cases h
      exact Nat.le_refl 0
  | case3 => cases h
  | case4 _ _ _ ih =>
      obtain ⟨⟨len, count⟩, hscan, heq⟩ := Option.map_eq_some_iff.mp h
      cases heq
      have := ih hscan
      dsimp only
      omega
  | case5 _ _ _ _ ih =>
      obtain ⟨⟨len, count⟩, hscan, heq⟩ := Option.map_eq_some_iff.mp h
      cases heq
      have := ih hscan
      dsimp only
      omega

section Scanning

variable {inStep : Bool} {input : ParseBuffer} {left skipped : Nat}

theorem Scans.lt_length (h : Scans inStep input left skipped) : left < input.length := by
  cases h with
  | inStep hscan => exact (List.getElem?_eq_some_iff.mp (scanString_quote hscan)).1
  | behind hscan =>
      have := (List.getElem?_eq_some_iff.mp (scanString_quote hscan)).1
      rw [List.length_cons]
      omega

theorem Scans.skipped_le (h : Scans inStep input left skipped) : skipped ≤ left := by
  cases h with
  | inStep hscan =>
      have := scanString_skipped hscan
      omega
  | behind hscan =>
      have := scanString_skipped hscan
      omega

/-- A byte further on: a byte is skipped only if the first loop starts a sequence there. -/
theorem Scans.next (h : Scans inStep input (left + 1) skipped) :
    ∃ c rest inStep' skipped', input = c :: rest ∧ Scans inStep' rest left skipped' ∧
      ((skipped = skipped' ∧ inStep' = true) ∨
        skipped = skipped' + 1 ∧ inStep = true ∧ inStep' = false ∧ c = backslash) := by
  cases h with
  | inStep hscan =>
      cases input with
      | nil => cases hscan
      | cons c rest =>
          rcases scanString_cases hscan with ⟨-, -, hrest⟩ | ⟨hback, skipped', hskipped, hrest⟩
          · exact ⟨c, rest, true, skipped, rfl, .inStep hrest, .inl ⟨rfl, rfl⟩⟩
          · exact ⟨c, rest, false, skipped', rfl, hrest, .inr ⟨hskipped, rfl, rfl, hback⟩⟩
  | behind hscan => exact ⟨_, _, true, skipped, rfl, .inStep hscan, .inl ⟨rfl, rfl⟩⟩

/-- **Bytes further on**: of `n` bytes at most every other is skipped, beginning with the first. -/
theorem Scans.drop {n : Nat} (h : Scans inStep input left skipped) (hn : n ≤ left) :
    ∃ inStep' skipped', Scans inStep' (input.drop n) (left - n) skipped' ∧
      skipped ≤ skipped' + (n + inStep.toNat) / 2 := by
  induction n generalizing inStep input left skipped with
  | zero => exact ⟨inStep, skipped, h, by omega⟩
  | succ n ih =>
      obtain ⟨left, rfl⟩ := Nat.exists_eq_add_of_le' (show 1 ≤ left by omega)
      obtain ⟨c, rest, inStep', skipped', rfl, hrest, hnext⟩ := h.next
      obtain ⟨inStep'', skipped'', hscans, hle⟩ := ih hrest (by omega)
      refine ⟨inStep'', skipped'', by rwa [Nat.add_sub_add_right], ?_⟩
      rcases hnext with ⟨rfl, rfl⟩ | ⟨rfl, rfl, rfl, -⟩
      · rw [Bool.toNat_true] at hle
        have : skipped ≤ skipped'' + (n + 1) / 2 := hle
        omega
      · rw [Bool.toNat_false] at hle
        rw [Bool.toNat_true]
        omega

end Scanning

/-! ## Reading -/

theorem readAt_ok {buffer : ParseBuffer} {i : Nat} (h : i < buffer.length) : ∃ c, readAt buffer i = .ok c := by
  unfold readAt
  rw [List.getElem?_eq_getElem h]
  exact ⟨_, rfl⟩

theorem parseHex4Loop_ok {rounds : Nat} {input : ParseBuffer} (hlen : rounds ≤ input.length) (h : Nat) :
    ∃ code, parseHex4Loop rounds input h = .ok code := by
  induction rounds generalizing input h with
  | zero => exact ⟨h, rfl⟩
  | succ rounds ih =>
      obtain ⟨c, hc⟩ := readAt_ok (show 0 < input.length by omega)
      unfold parseHex4Loop
      rw [hc, Loops.ok_bind]
      cases hexDigit c with
      | none => exact ⟨0, rfl⟩
      | some d => exact ih (by rw [List.length_drop]; omega) _

theorem length_utf8Tail (n codepoint : Nat) (bytes : List UInt8) :
    (utf8Tail n codepoint bytes).2.length = bytes.length + n := by
  induction n generalizing codepoint bytes with
  | zero => rfl
  | succ n ih =>
      rw [utf8Tail, ih, List.length_cons]
      omega

theorem length_utf8Bytes (n mark codepoint : Nat) : (utf8Bytes n mark codepoint).length = n - 1 + 1 := by
  have := length_utf8Tail (n - 1) codepoint []
  simp only [utf8Bytes, List.length_cons, this, List.length_nil, Nat.zero_add]

/-- A code point of four hexadecimal digits has three bytes at most, any other four. -/
theorem length_encodeCodepoint {codepoint : Nat} {bytes : List UInt8} (h : encodeCodepoint codepoint = some bytes) :
    bytes.length ≤ 4 ∧ (codepoint < 0x10000 → bytes.length ≤ 3) := by
  unfold encodeCodepoint at h
  split at h
  · cases h
    simp [length_utf8Bytes]
  · split at h
    · cases h
      simp [length_utf8Bytes]
    · split at h
      · cases h
        simp [length_utf8Bytes]
      · next hlarge =>
          split at h
          · cases h
            exact ⟨by simp [length_utf8Bytes], fun hsmall => absurd hsmall hlarge⟩
          · cases h

theorem hexDigit_lt {c : UInt8} {d : Nat} (h : hexDigit c = some d) : d < 16 := by
  unfold hexDigit at h
  split at h
  · next hc =>
      obtain ⟨h0, h1⟩ := hc
      rw [UInt8.le_iff_toNat_le] at h0 h1
      cases h
      have : c.toNat ≤ 57 := h1
      omega
  · split at h
    · next hc =>
        obtain ⟨h0, h1⟩ := hc
        rw [UInt8.le_iff_toNat_le] at h0 h1
        cases h
        have : c.toNat ≤ 70 := h1
        omega
    · split at h
      · next hc =>
          obtain ⟨h0, h1⟩ := hc
          rw [UInt8.le_iff_toNat_le] at h0 h1
          cases h
          have : c.toNat ≤ 102 := h1
          omega
      · cases h

/-- What the digits so far leave room for. -/
theorem parseHex4Loop_lt {rounds : Nat} {input : ParseBuffer} {h bound code : Nat} (hbound : h + 15 < bound)
    (hrun : parseHex4Loop (rounds + 1) input h = .ok code) : code < bound * 16 ^ rounds := by
  induction rounds generalizing input h bound with
  | zero =>
      obtain ⟨c, -, hdigit⟩ := Loops.bind_eq_ok hrun
      cases hd : hexDigit c with
      | none =>
          rw [hd] at hdigit
          cases hdigit
          omega
      | some d =>
          rw [hd] at hdigit
          cases hdigit
          have := hexDigit_lt hd
          rw [if_pos rfl]
          omega
  | succ rounds ih =>
      obtain ⟨c, -, hdigit⟩ := Loops.bind_eq_ok hrun
      cases hd : hexDigit c with
      | none =>
          rw [hd] at hdigit
          cases hdigit
          exact Nat.mul_pos (by omega) (Nat.pow_pos (by omega))
      | some d =>
          rw [hd] at hdigit
          dsimp only at hdigit
          have := hexDigit_lt hd
          rw [if_neg (Nat.succ_ne_zero rounds)] at hdigit
          have hroom : (h + d) * 16 + 15 < bound * 16 := by omega
          have hlt := ih hroom hdigit
          rwa [Nat.mul_assoc, Nat.mul_comm 16, ← Nat.pow_succ] at hlt

theorem parseHex4_lt {input : ParseBuffer} {code : Nat} (h : parseHex4 input = .ok code) : code < 0x10000 :=
  parseHex4Loop_lt (show 0 + 15 < 16 by omega) h

theorem parseHex4_ok {input : ParseBuffer} (h : 4 ≤ input.length) : ∃ code, parseHex4 input = .ok code :=
  parseHex4Loop_ok h 0

/-- A sequence ends in front of the closing quote or, two bytes long, behind it, and writes half of its bytes at
    most. -/
def Fits (left : Nat) (sequence : Option (Nat × List UInt8)) : Prop :=
  ∀ n bytes, sequence = some (n, bytes) → 2 ≤ n ∧ (n ≤ left ∨ n = 2) ∧ 2 * bytes.length ≤ n

theorem fits_none (left : Nat) : Fits left none := fun _ _ h => nomatch h

theorem utf16Literal_ok {input : ParseBuffer} {left : Nat} (hleft : left < input.length) :
    ∃ sequence, utf16LiteralToUtf8 input left = .ok sequence ∧ Fits left sequence := by
  unfold utf16LiteralToUtf8
  split
  · exact ⟨none, rfl, fits_none left⟩
  · next hsix =>
      obtain ⟨firstCode, hfirst⟩ := parseHex4_ok (show 4 ≤ (input.drop 2).length by rw [List.length_drop]; omega)
      have hfirstLt := parseHex4_lt hfirst
      rw [hfirst, Loops.ok_bind]
      split
      · exact ⟨none, rfl, fits_none left⟩
      · split
        · split
          · exact ⟨none, rfl, fits_none left⟩
          · next htwelve =>
              obtain ⟨c0, hc0⟩ := readAt_ok (show 6 < input.length by omega)
              obtain ⟨c1, hc1⟩ := readAt_ok (show 7 < input.length by omega)
              rw [hc0, Loops.ok_bind, hc1, Loops.ok_bind]
              split
              · exact ⟨none, rfl, fits_none left⟩
              · obtain ⟨secondCode, hsecond⟩ :=
                  parseHex4_ok (show 4 ≤ (input.drop 8).length by rw [List.length_drop]; omega)
                rw [hsecond, Loops.ok_bind]
                split
                · exact ⟨none, rfl, fits_none left⟩
                · refine ⟨_, rfl, ?_⟩
                  intro n bytes h
                  obtain ⟨bytes', hbytes, heq⟩ := Option.map_eq_some_iff.mp h
                  cases heq
                  have := (length_encodeCodepoint hbytes).1
                  exact ⟨by omega, .inl (by omega), by omega⟩
        · refine ⟨_, rfl, ?_⟩
          intro n bytes h
          obtain ⟨bytes', hbytes, heq⟩ := Option.map_eq_some_iff.mp h
          cases heq
          have := (length_encodeCodepoint hbytes).2 hfirstLt
          exact ⟨by omega, .inl (by omega), by omega⟩

theorem fits_letter (left : Nat) (c : UInt8) : Fits left (some (2, [c])) := by
  intro n bytes h
  cases h
  exact ⟨Nat.le_refl 2, .inr rfl, by simp⟩

theorem escapeSequence_ok {input : ParseBuffer} {left : Nat} (hleft : left + 1 < input.length) :
    ∃ sequence, escapeSequence input (left + 1) = .ok sequence ∧ Fits (left + 1) sequence := by
  obtain ⟨e, he⟩ := readAt_ok (show 1 < input.length by omega)
  unfold escapeSequence
  rw [he, Loops.ok_bind]
  split
  · exact ⟨_, rfl, fits_letter _ _⟩
  · split
    · exact ⟨_, rfl, fits_letter _ _⟩
    · split
      · exact ⟨_, rfl, fits_letter _ _⟩
      · split
        · exact ⟨_, rfl, fits_letter _ _⟩
        · split
          · exact ⟨_, rfl, fits_letter _ _⟩
          · split
            · exact ⟨_, rfl, fits_letter _ _⟩
            · split
              · exact utf16Literal_ok hleft
              · exact ⟨none, rfl, fits_none _⟩

/-! ## `parse_string` -/

theorem writeOutput_ok {size : Nat} {output bytes : List UInt8} (h : output.length + bytes.length ≤ size) :
    writeOutput size output bytes = .ok (output ++ bytes) := by
  unfold writeOutput
  rw [if_pos h]

/-- **The second loop writes no more than was allocated.** What is written and what the bytes in front of the closing
    quote still account for stay within one bound. -/
theorem unescapeLoop_ok {size bound fuel : Nat} (hsize : bound ≤ size) {inStep : Bool} {input : ParseBuffer}
    {left skipped : Nat} {output : List UInt8} (hscans : Scans inStep input left skipped) (hfuel : left ≤ fuel)
    (hbound : output.length + (left - skipped) ≤ bound) :
    ∃ result, unescapeLoop size fuel input left output = .ok result ∧
      ∀ written, result = some written → written.length ≤ bound := by
  induction fuel generalizing inStep input left skipped output with
  | zero =>
      obtain rfl : left = 0 := by omega
      refine ⟨some output, by rw [unescapeLoop], ?_⟩
      intro written h
      cases h
      omega
  | succ fuel ih =>
      cases left with
      | zero =>
          refine ⟨some output, by rw [unescapeLoop], ?_⟩
          intro written h
          cases h
          omega
      | succ left =>
          obtain ⟨c, rest, inStep', skipped', hinput, hrest, hnext⟩ := hscans.next
          have hlength := hscans.lt_length
          have hread : readAt input 0 = .ok c := by rw [hinput]; rfl
          have hskipped := hscans.skipped_le
          have hskipped' := hrest.skipped_le
          rw [unescapeLoop, hread, Loops.ok_bind]
          by_cases hc : c = backslash
          · -- an escape sequence
            rw [if_neg (not_not.mpr hc)]
            obtain ⟨sequence, hsequence, hfits⟩ := escapeSequence_ok hlength
            rw [hsequence, Loops.ok_bind]
            cases sequence with
            | none => exact ⟨none, rfl, fun _ h => nomatch h⟩
            | some sequence =>
                obtain ⟨n, bytes⟩ := sequence
                obtain ⟨htwo, hend, hhalf⟩ := hfits n bytes rfl
                dsimp only
                by_cases hn : n ≤ left + 1
                · obtain ⟨inStep'', skipped'', hscans'', hdrop⟩ := hscans.drop hn
                  have hskipped'' := hscans''.skipped_le
                  have hstep : inStep.toNat ≤ 1 := Bool.toNat_le inStep
                  have hroom : (output ++ bytes).length + (left + 1 - n - skipped'') ≤ bound := by
                    rw [List.length_append]
                    omega
                  rw [writeOutput_ok (by rw [List.length_append] at hroom; omega), Loops.ok_bind]
                  exact ih hscans'' (by omega) hroom
                · -- the last byte in front of the quote is a backslash that the first loop has skipped
                  obtain rfl : n = 2 := by omega
                  obtain rfl : left = 0 := by omega
                  have hone : bytes.length ≤ 1 := by omega
                  have hnone : skipped = 0 := by
                    rcases hnext with ⟨rfl, -⟩ | ⟨-, -, rfl, -⟩
                    · omega
                    · exact absurd hrest (by intro h; cases h)
                  rw [writeOutput_ok (by omega), Loops.ok_bind]
                  refine ⟨some (output ++ bytes), by rw [unescapeLoop], ?_⟩
                  intro written h
                  cases h
                  rw [List.length_append]
                  omega
          · -- any other byte is copied
            rw [if_pos hc]
            have hsame : skipped = skipped' := by
              rcases hnext with ⟨hsame, -⟩ | ⟨-, -, -, hback⟩
              · exact hsame
              · exact absurd hback hc
            rw [writeOutput_ok (by rw [List.length_singleton]; omega), Loops.ok_bind]
            have hdrop : input.drop 1 = rest := by rw [hinput]; rfl
            rw [hdrop]
            exact ih hrest (by omega) (by rw [List.length_append, List.length_singleton]; omega)

/-! ## Buffers -/

/-- The last byte of the buffer is the terminator of what is parsed. -/
def Terminated (buffer : ParseBuffer) : Prop := buffer.getLast? = some 0

section Terminated

variable {buffer : ParseBuffer}

theorem Terminated.ne_nil (h : Terminated buffer) : buffer ≠ [] := by
  rintro rfl
  cases h

theorem Terminated.drop (h : Terminated buffer) {n : Nat} (hn : n < buffer.length) : Terminated (buffer.drop n) := by
  unfold Terminated
  rw [List.getLast?_drop, if_neg (by omega)]
  exact h

/-- Another byte is not the last. -/
theorem Terminated.succ_lt (h : Terminated buffer) {i : Nat} {c : UInt8} (hc : buffer[i]? = some c) (hne : c ≠ 0) :
    i + 1 < buffer.length := by
  obtain ⟨hi, -⟩ := List.getElem?_eq_some_iff.mp hc
  by_contra hlast
  have heq : buffer.getLast? = buffer[i]? := by
    rw [List.getLast?_eq_getElem?]
    congr 1
    omega
  rw [Terminated, heq, hc] at h
  exact hne (Option.some.inj h)

/-- What begins with other bytes goes on behind them. -/
theorem Terminated.length_lt (h : Terminated buffer) {n : Nat} (hzero : (0 : UInt8) ∉ buffer.take n)
    (hn : n ≤ buffer.length) : n < buffer.length := by
  cases n with
  | zero => exact List.length_pos_iff.mpr h.ne_nil
  | succ n =>
      have hget : buffer[n]? = some buffer[n] := List.getElem?_eq_getElem _
      apply h.succ_lt hget
      intro hc
      apply hzero
      rw [← hc]
      exact List.mem_take_iff_getElem.mpr ⟨n, by omega, rfl⟩

theorem Terminated.skipWhitespace (h : Terminated buffer) :
    Terminated (bufferSkipWhitespace buffer) ∧ (bufferSkipWhitespace buffer).length ≤ buffer.length := by
  have hlength := List.length_pos_iff.mpr h.ne_nil
  unfold bufferSkipWhitespace
  split
  · exact ⟨h.drop (by omega), by rw [List.length_drop]; omega⟩
  · next c rest hdrop =>
      obtain ⟨taken, htaken⟩ := List.dropWhile_suffix (l := buffer) (fun c => decide (c ≤ 32))
      have hn : buffer.drop taken.length = c :: rest := by
        rw [← htaken, hdrop, List.drop_left]
      have hlen : (buffer.drop taken.length).length = rest.length + 1 := by rw [hn, List.length_cons]
      rw [List.length_drop] at hlen
      rw [← hn]
      exact ⟨h.drop (by omega), by rw [List.length_drop]; omega⟩

end Terminated

/-- What a function of the parser does on every terminated buffer: it returns, and on success leaves a terminated
    buffer, a shorter one. -/
def Safe {α : Type} (p : ParseBuffer → Except ParseFault (Parsed α)) : Prop :=
  ∀ buffer, Terminated buffer → ∃ result, p buffer = .ok result ∧
    ∀ a rest, result = some (a, rest) → Terminated rest ∧ rest.length < buffer.length

/-- Behind bytes that are no terminators the buffer goes on. -/
theorem advance {α : Type} {buffer : ParseBuffer} (h : Terminated buffer) {n : Nat} (hpos : 0 < n)
    (hzero : (0 : UInt8) ∉ buffer.take n) (hn : n ≤ buffer.length) (a : α) :
    ∀ b rest, some (a, buffer.drop n) = some (b, rest) → Terminated rest ∧ rest.length < buffer.length := by
  intro b rest heq
  cases heq
  have hlt := h.length_lt hzero hn
  exact ⟨h.drop hlt, by rw [List.length_drop]; omega⟩

theorem not_succeeds {α : Type} {buffer : ParseBuffer} :
    ∀ (a : α) rest, (none : Parsed α) = some (a, rest) → Terminated rest ∧ rest.length < buffer.length :=
  fun _ _ h => nomatch h

/-- **`parse_string`** stays inside the input and the output. -/
theorem parseString_safe : Safe parseString := by
  intro buffer hterm
  have hpos := List.length_pos_iff.mpr hterm.ne_nil
  obtain ⟨c, hc⟩ := readAt_ok hpos
  unfold parseString
  rw [hc, Loops.ok_bind]
  split
  · exact ⟨none, rfl, not_succeeds⟩
  · cases hscan : scanString (buffer.drop 1) with
    | none => exact ⟨none, rfl, not_succeeds⟩
    | some s =>
        obtain ⟨len, skipped⟩ := s
        have hskipped := scanString_skipped hscan
        have hroom : ([] : List UInt8).length + (len - skipped) ≤ len - skipped := by simp
        obtain ⟨result, hloop, hwritten⟩ := unescapeLoop_ok
          (show len - skipped ≤ len + 1 - skipped + 1 by omega) (.inStep hscan) (Nat.le_refl len) hroom
        dsimp only
        rw [hloop, Loops.ok_bind]
        cases result with
        | none => exact ⟨none, rfl, not_succeeds⟩
        | some output =>
            have hout := hwritten output rfl
            dsimp only
            rw [writeOutput_ok (by rw [List.length_singleton]; omega), Loops.ok_bind]
            refine ⟨_, rfl, ?_⟩
            intro s rest h
            cases h
            have hquote : buffer[len + 1]? = some quote := by
              rw [Nat.add_comm, ← List.getElem?_drop]
              exact scanString_quote hscan
            have hlt := hterm.succ_lt hquote (by decide)
            exact ⟨hterm.drop hlt, by rw [List.length_drop]; omega⟩

theorem take_eq_of_isPrefix {l buffer : List UInt8} (h : l <+: buffer) {n : Nat} (hn : n ≤ l.length) :
    buffer.take n = l.take n := by
  obtain ⟨behind, rfl⟩ := h
  exact List.take_append_of_le_length hn

theorem isNumberChar_zero : isNumberChar 0 = false := by decide

theorem parseNumber_safe (strtod : Strtod) : Safe (parseNumber strtod) := by
  intro buffer hterm
  unfold parseNumber
  dsimp only
  split
  · exact ⟨none, rfl, not_succeeds⟩
  · next hread =>
      have hle := strtod.read_le ((buffer.take 63).takeWhile isNumberChar)
      have hprefix : (buffer.take 63).takeWhile isNumberChar <+: buffer :=
        (List.takeWhile_prefix _).trans (List.take_prefix 63 buffer)
      refine ⟨_, rfl, advance hterm (by omega) ?_ (Nat.le_trans hle hprefix.length_le) _⟩
      intro hzero
      rw [take_eq_of_isPrefix hprefix hle] at hzero
      have hnumber := List.mem_takeWhile_imp (List.mem_of_mem_take hzero)
      rw [isNumberChar_zero] at hnumber
      cases hnumber

/-! ## `parse_value` -/

/-- What stands behind a byte that is read. -/
theorem Terminated.behind {buffer : ParseBuffer} (h : Terminated buffer) {c : UInt8} (hc : buffer.head? = some c)
    (hne : c ≠ 0) : Terminated (buffer.drop 1) ∧ (buffer.drop 1).length < buffer.length := by
  rw [List.head?_eq_getElem?] at hc
  have hlt := h.succ_lt hc hne
  exact ⟨h.drop hlt, by rw [List.length_drop]; omega⟩

section Loops

variable {p : ValueParser}

theorem arrayLoop_safe (hp : Safe p) (fuel : Nat) : ∀ buffer, Terminated buffer → buffer.length ≤ fuel →
    ∃ result, arrayLoop p fuel buffer = .ok result ∧
      ∀ items rest, result = some (items, rest) → Terminated rest ∧ rest.length < buffer.length := by
  induction fuel with
  | zero =>
      intro buffer hterm hfuel
      have := List.length_pos_iff.mpr hterm.ne_nil
      omega
  | succ fuel ih =>
      intro buffer hterm hfuel
      obtain ⟨hskip, hskipLe⟩ := hterm.skipWhitespace
      obtain ⟨result, hresult, hshrinks⟩ := hp _ hskip
      rw [arrayLoop, hresult, Loops.ok_bind]
      cases result with
      | none => exact ⟨none, rfl, not_succeeds⟩
      | some result =>
          obtain ⟨item, rest⟩ := result
          obtain ⟨hrest, hlt⟩ := hshrinks item rest rfl
          obtain ⟨hrestSkip, hrestLe⟩ := hrest.skipWhitespace
          dsimp only
          split
          · next hcomma =>
              obtain ⟨hbehind, hbehindLt⟩ := hrestSkip.behind hcomma (by decide)
              obtain ⟨items, hitems, hitemsShrink⟩ := ih _ hbehind (by omega)
              rw [hitems, Loops.ok_bind]
              refine ⟨_, rfl, ?_⟩
              intro all rest' h
              obtain ⟨⟨items', restItems⟩, heq, hsplit⟩ := Option.map_eq_some_iff.mp h
              obtain rfl : restItems = rest' := congrArg Prod.snd hsplit
              obtain ⟨hterm', hlt'⟩ := hitemsShrink _ _ heq
              exact ⟨hterm', by omega⟩
          · refine ⟨_, rfl, ?_⟩
            intro all rest' h
            cases h
            exact ⟨hrestSkip, by omega⟩

theorem objectLoop_safe (hp : Safe p) (fuel : Nat) : ∀ buffer, Terminated buffer → buffer.length ≤ fuel →
    ∃ result, objectLoop p fuel buffer = .ok result ∧
      ∀ members rest, result = some (members, rest) → Terminated rest ∧ rest.length < buffer.length := by
  induction fuel with
  | zero =>
      intro buffer hterm hfuel
      have := List.length_pos_iff.mpr hterm.ne_nil
      omega
  | succ fuel ih =>
      intro buffer hterm hfuel
      obtain ⟨hskip, hskipLe⟩ := hterm.skipWhitespace
      obtain ⟨name, hname, hnameShrinks⟩ := parseString_safe _ hskip
      rw [objectLoop, hname, Loops.ok_bind]
      cases name with
      | none => exact ⟨none, rfl, not_succeeds⟩
      | some name =>
          obtain ⟨name, rest⟩ := name
          obtain ⟨hrest, hlt⟩ := hnameShrinks name rest rfl
          obtain ⟨hrestSkip, hrestLe⟩ := hrest.skipWhitespace
          dsimp only
          split
          · exact ⟨none, rfl, not_succeeds⟩
          · next hcolon =>
              obtain ⟨hvalue, hvalueLt⟩ := hrestSkip.behind (not_not.mp hcolon) (by decide)
              obtain ⟨hvalueSkip, hvalueLe⟩ := hvalue.skipWhitespace
              obtain ⟨result, hresult, hshrinks⟩ := hp _ hvalueSkip
              rw [hresult, Loops.ok_bind]
              cases result with
              | none => exact ⟨none, rfl, not_succeeds⟩
              | some result =>
                  obtain ⟨item, restItem⟩ := result
                  obtain ⟨hrestItem, hltItem⟩ := hshrinks item restItem rfl
                  obtain ⟨hitemSkip, hitemLe⟩ := hrestItem.skipWhitespace
                  dsimp only
                  split
                  · next hcomma =>
                      obtain ⟨hbehind, hbehindLt⟩ := hitemSkip.behind hcomma (by decide)
                      obtain ⟨members, hmembers, hmembersShrink⟩ := ih _ hbehind (by omega)
                      rw [hmembers, Loops.ok_bind]
                      refine ⟨_, rfl, ?_⟩
                      intro all rest' h
                      obtain ⟨⟨members', restMembers⟩, heq, hsplit⟩ := Option.map_eq_some_iff.mp h
                      obtain rfl : restMembers = rest' := congrArg Prod.snd hsplit
                      obtain ⟨hterm', hlt'⟩ := hmembersShrink _ _ heq
                      exact ⟨hterm', by omega⟩
                  · refine ⟨_, rfl, ?_⟩
                    intro all rest' h
                    cases h
                    exact ⟨hitemSkip, by omega⟩

end Loops

theorem parseArray_safe {p : ValueParser} (hp : Safe p) {buffer : ParseBuffer} (hterm : Terminated buffer)
    (hopen : buffer.head? = some openBracket) : ∃ result, parseArray p buffer = .ok result ∧
      ∀ item rest, result = some (item, rest) → Terminated rest ∧ rest.length < buffer.length := by
  obtain ⟨hbehind, hbehindLt⟩ := hterm.behind hopen (by decide)
  obtain ⟨hskip, hskipLe⟩ := hbehind.skipWhitespace
  unfold parseArray
  dsimp only
  split
  · next hclose =>
      obtain ⟨hend, hendLt⟩ := hskip.behind hclose (by decide)
      refine ⟨_, rfl, ?_⟩
      intro item rest h
      cases h
      exact ⟨hend, by omega⟩
  · rw [if_neg hskip.ne_nil]
    obtain ⟨items, hitems, hshrinks⟩ := arrayLoop_safe hp _ _ hskip (Nat.le_refl _)
    rw [hitems, Loops.ok_bind]
    cases items with
    | none => exact ⟨none, rfl, not_succeeds⟩
    | some items =>
        obtain ⟨items, restItems⟩ := items
        obtain ⟨hrest, hlt⟩ := hshrinks items restItems rfl
        dsimp only
        split
        · next hclose =>
            obtain ⟨hend, hendLt⟩ := hrest.behind hclose (by decide)
            refine ⟨_, rfl, ?_⟩
            intro item rest h
            cases h
            exact ⟨hend, by omega⟩
        · exact ⟨none, rfl, not_succeeds⟩

theorem parseObject_safe {p : ValueParser} (hp : Safe p) {buffer : ParseBuffer} (hterm : Terminated buffer)
    (hopen : buffer.head? = some openBrace) : ∃ result, parseObject p buffer = .ok result ∧
      ∀ item rest, result = some (item, rest) → Terminated rest ∧ rest.length < buffer.length := by
  obtain ⟨hbehind, hbehindLt⟩ := hterm.behind hopen (by decide)
  obtain ⟨hskip, hskipLe⟩ := hbehind.skipWhitespace
  unfold parseObject
  dsimp only
  split
  · next hclose =>
      obtain ⟨hend, hendLt⟩ := hskip.behind hclose (by decide)
      refine ⟨_, rfl, ?_⟩
      intro item rest h
      cases h
      exact ⟨hend, by omega⟩
  · rw [if_neg hskip.ne_nil]
    obtain ⟨members, hmembers, hshrinks⟩ := objectLoop_safe hp _ _ hskip (Nat.le_refl _)
    rw [hmembers, Loops.ok_bind]
    cases members with
    | none => exact ⟨none, rfl, not_succeeds⟩
    | some members =>
        obtain ⟨members, restMembers⟩ := members
        obtain ⟨hrest, hlt⟩ := hshrinks members restMembers rfl
        dsimp only
        split
        · next hclose =>
            obtain ⟨hend, hendLt⟩ := hrest.behind hclose (by decide)
            refine ⟨_, rfl, ?_⟩
            intro item rest h
            cases h
            exact ⟨hend, by omega⟩
        · exact ⟨none, rfl, not_succeeds⟩

/-- A literal. -/
theorem advance_literal {α : Type} {buffer : ParseBuffer} (hterm : Terminated buffer) {n : Nat} {literal : List UInt8}
    (htake : buffer.take n = literal) (hpos : 0 < n) (hlen : literal.length = n) (hzero : (0 : UInt8) ∉ literal)
    (a : α) : ∀ b rest, some (a, buffer.drop n) = some (b, rest) → Terminated rest ∧ rest.length < buffer.length := by
  apply advance hterm hpos (by rwa [htake])
  have := congrArg List.length htake
  rw [List.length_take] at this
  omega

/-- **`parse_value`**, if it is safe one nesting further down. -/
theorem parseValue_step {strtod : Strtod} {nesting : Nat}
    (hbelow : ∀ n, nesting = n + 1 → Safe (parseValue strtod n)) : Safe (parseValue strtod nesting) := by
  intro buffer hterm
  unfold parseValue
  split
  · next h => exact ⟨_, rfl, advance_literal hterm h (by decide) rfl (by decide) _⟩
  · split
    · next h => exact ⟨_, rfl, advance_literal hterm h (by decide) rfl (by decide) _⟩
    · split
      · next h => exact ⟨_, rfl, advance_literal hterm h (by decide) rfl (by decide) _⟩
      · split
        · exact absurd rfl hterm.ne_nil
        · next c rest _ _ _ =>
            split
            · -- a string
              obtain ⟨result, hresult, hshrinks⟩ := parseString_safe _ hterm
              rw [hresult, Loops.ok_bind]
              refine ⟨_, rfl, ?_⟩
              intro item behind h
              obtain ⟨⟨string, restString⟩, heq, hsplit⟩ := Option.map_eq_some_iff.mp h
              obtain rfl : restString = behind := congrArg Prod.snd hsplit
              exact hshrinks string restString heq
            · split
              · exact parseNumber_safe strtod _ hterm
              · split
                · next hopen =>
                    cases nesting with
                    | zero => exact ⟨none, rfl, not_succeeds⟩
                    | succ n => exact parseArray_safe (hbelow n rfl) hterm (congrArg some hopen)
                · split
                  · next hopen =>
                      cases nesting with
                      | zero => exact ⟨none, rfl, not_succeeds⟩
                      | succ n => exact parseObject_safe (hbelow n rfl) hterm (congrArg some hopen)
                  · exact ⟨none, rfl, not_succeeds⟩

/-- **`parse_value`**, at any nesting. -/
theorem parseValue_safe (strtod : Strtod) (nesting : Nat) : Safe (parseValue strtod nesting) := by
  induction nesting with
  | zero => exact parseValue_step (fun n h => absurd h (by omega))
  | succ nesting ih =>
      apply parseValue_step
      intro n h
      obtain rfl : nesting = n := by omega
      exact ih

theorem terminated_skipBom {buffer : ParseBuffer} (h : Terminated buffer) : Terminated (skipUtf8Bom buffer) := by
  unfold skipUtf8Bom
  split
  · exact h.drop (by omega)
  · exact h

/-- **Whatever string is parsed, the parser stays inside its memory.** It reads no byte behind the terminator, no string
    that it reads needs more than the memory allocated for it, and it returns. -/
theorem parse_returns (strtod : Strtod) (value : CString) : ∃ json, parse strtod value = .ok json := by
  have hterm : Terminated (value.bytes ++ [0]) := by
    unfold Terminated
    rw [List.getLast?_concat]
  obtain ⟨result, hresult, -⟩ := parseValue_safe strtod nestingLimit _ (terminated_skipBom hterm).skipWhitespace.1
  unfold parse
  rw [hresult]
  exact ⟨_, rfl⟩

end CJson

end Hand2
