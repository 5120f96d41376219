import Mathlib.Data.List.Basic

/-!
# `Library.TextFile` — files written line by line

A program that writes a file by appending one terminated line after another writes `unlines`; `lines` is
what a reader gets back, provided no line holds the terminator itself.
-/

namespace TextFile

variable {α : Type} [DecidableEq α]

/-- The lines of a file, the last one possibly without its terminator. -/
def lines (newline : α) : List α → List (List α)
  | []        => []
  | c :: rest =>
      if c = newline then [] :: lines newline rest
      else match lines newline rest with
        | []           => [[c]]
        | line :: more => (c :: line) :: more

omit [DecidableEq α] in
/-- The file that holds the given lines. -/
def unlines (newline : α) (ls : List (List α)) : List α := ls.flatMap (fun line => line ++ [newline])

omit [DecidableEq α] in
@[simp] theorem unlines_nil (newline : α) : unlines newline [] = [] := rfl

omit [DecidableEq α] in
/-- One line more. -/
theorem unlines_concat (newline : α) (ls : List (List α)) (line : List α) :
    unlines newline (ls ++ [line]) = unlines newline ls ++ (line ++ [newline]) := by
  simp [unlines]

/-- The first line is read up to its terminator. -/
theorem lines_append (newline : α) {line : List α} (h : newline ∉ line) (rest : List α) :
    lines newline (line ++ newline :: rest) = line :: lines newline rest := by
  induction line with
  | nil => rw [List.nil_append, lines, if_pos rfl]
  | cons c line ih =>
      rw [List.mem_cons, not_or] at h
      rw [List.cons_append, lines, if_neg (fun hc => h.1 hc.symm), ih h.2]

/-- **What was written is read back.** -/
theorem lines_unlines (newline : α) {ls : List (List α)} (h : ∀ line ∈ ls, newline ∉ line) :
    lines newline (unlines newline ls) = ls := by
  induction ls with
  | nil => rfl
  | cons line ls ih =>
      have hsplit : unlines newline (line :: ls) = line ++ newline :: unlines newline ls := by
        simp [unlines]
      rw [hsplit, lines_append newline (h line List.mem_cons_self),
        ih (fun l hl => h l (List.mem_cons_of_mem _ hl))]

/-- No line that is read holds the terminator. -/
theorem notMem_of_mem_lines (newline : α) {text line : List α} (h : line ∈ lines newline text) :
    newline ∉ line := by
  induction text generalizing line with
  | nil => exact absurd h List.not_mem_nil
  | cons c rest ih =>
      rw [lines] at h
      split at h
      · rcases List.mem_cons.mp h with rfl | h
        · exact List.not_mem_nil
        · exact ih h
      · next hc =>
          cases hrest : lines newline rest with
          | nil =>
              rw [hrest] at h
              obtain rfl := List.mem_singleton.mp h
              exact fun hmem => hc (List.mem_singleton.mp hmem).symm
          | cons first more =>
              rw [hrest] at h ih
              rcases List.mem_cons.mp h with rfl | h
              · intro hmem
                rcases List.mem_cons.mp hmem with heq | hmem
                · exact hc heq.symm
                · exact ih List.mem_cons_self hmem
              · exact ih (List.mem_cons_of_mem _ h)

/-! ## Files whose lines are known -/

/-- A file of exactly `n` terminated lines, of which line `y` satisfies `Line y`. -/
structure HasLines (newline : α) (text : List α) (n : Nat) (Line : Nat → List α → Prop) : Prop where
  length_lines : (lines newline text).length = n
  terminated : unlines newline (lines newline text) = text
  line : ∀ y l, (lines newline text)[y]? = some l → Line y l

theorem hasLines_nil (newline : α) (Line : Nat → List α → Prop) : HasLines newline [] 0 Line :=
  ⟨rfl, rfl, fun _ _ h => absurd h (by simp [lines])⟩

/-- **One line more** is line `n` of a file that had `n`. -/
theorem HasLines.concat {newline : α} {text : List α} {n : Nat} {Line : Nat → List α → Prop}
    (h : HasLines newline text n Line) {l : List α} (hnewline : newline ∉ l) (hline : Line n l) :
    HasLines newline (text ++ (l ++ [newline])) (n + 1) Line := by
  have hread : lines newline (text ++ (l ++ [newline])) = lines newline text ++ [l] := by
    have hall : ∀ line ∈ lines newline text ++ [l], newline ∉ line := by
      intro line hmem
      rcases List.mem_append.mp hmem with hmem | hmem
      · exact notMem_of_mem_lines newline hmem
      · rw [List.mem_singleton.mp hmem]
        exact hnewline
    rw [← lines_unlines newline hall, unlines_concat, h.terminated]
  refine ⟨?_, ?_, ?_⟩
  · rw [hread, List.length_append, h.length_lines]
    rfl
  · rw [hread, unlines_concat, h.terminated]
  · intro y line hy
    rw [hread, List.getElem?_append] at hy
    split at hy
    · exact h.line y line hy
    · next hge =>
        have hlen := h.length_lines
        obtain ⟨hlt, rfl⟩ := List.getElem?_eq_some_iff.mp hy
        rw [List.getElem_singleton]
        rw [List.length_singleton] at hlt
        obtain rfl : y = n := by omega
        exact hline

/-- What is known of the lines can be weakened, line by line. -/
theorem HasLines.mono {newline : α} {text : List α} {n : Nat} {Line Line' : Nat → List α → Prop}
    (h : HasLines newline text n Line) (himp : ∀ y < n, ∀ l, Line y l → Line' y l) :
    HasLines newline text n Line' := by
  refine ⟨h.length_lines, h.terminated, fun y l hy => himp y ?_ l (h.line y l hy)⟩
  rw [← h.length_lines]
  exact (List.getElem?_eq_some_iff.mp hy).1

end TextFile
