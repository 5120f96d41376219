import Mathlib.Data.List.Basic

/-!
# `Library.Cursor` — reading a content through a position

A cursor is a position in a content, with a log of the positions that have been read. Behind the end, peeking gives
`zero` and reads nothing, and eating does not move. What the cursor sees is the list from its position on: each
operation is the operation on that list (`headD_drop`, `drop_eat`, `drop_scan`), and keeps the cursor and its log inside
the content (`Inside`).
-/

/-- A position, and the positions that have been read, the last one first. -/
structure Cursor where
  at_ : Nat
  reads : List Nat

namespace Cursor

variable {α S : Type}

/-- `size` positions from `start` on. -/
def positions (start size : Nat) : List Nat := (List.range size).map (fun i => start + i)

theorem lt_of_mem_positions {start size n i : Nat} (h : i ∈ positions start size) (hsize : start + size ≤ n) :
    i < n := by
  obtain ⟨k, hk, rfl⟩ := List.mem_map.mp h
  have hlt := List.mem_range.mp hk
  omega

section Operations

variable (content : List α) (zero : α)

/-- The item at the position. -/
def peek (c : Cursor) : α × Cursor :=
  if c.at_ < content.length then (content.getD c.at_ zero, { c with reads := c.at_ :: c.reads }) else (zero, c)

/-- One position further. -/
def eat (c : Cursor) : Cursor := if c.at_ < content.length then { c with at_ := c.at_ + 1 } else c

/-- Read `size` items from `start` on, wherever that is. -/
def copy (c : Cursor) (start size : Nat) : Cursor := { c with reads := (positions start size).reverse ++ c.reads }

theorem peek_at (c : Cursor) : (c.peek content zero).2.at_ = c.at_ := by
  unfold peek
  split <;> rfl

theorem lt_of_peek {c : Cursor} (h : (c.peek content zero).1 ≠ zero) : c.at_ < content.length := by
  unfold peek at h
  split at h
  · assumption
  · exact absurd rfl h

theorem eat_at_of_lt {c : Cursor} (h : c.at_ < content.length) : (c.eat content).at_ = c.at_ + 1 := by
  rw [eat, if_pos h]

variable [DecidableEq α]

/-- `for(item = peek; item; item = eat_and_peek)`: the body gives the next state, or breaks. -/
def scan (body : S → α → Option S) (s : S) (c : Cursor) : S × Cursor :=
  if _h : (c.peek content zero).1 = zero then (s, (c.peek content zero).2)
  else match body s (c.peek content zero).1 with
    | none    => (s, (c.peek content zero).2)
    | some s' => scan body s' ((c.peek content zero).2.eat content)
termination_by content.length - c.at_
decreasing_by
  have hlt := lt_of_peek content zero _h
  rw [eat_at_of_lt content (by rwa [peek_at]), peek_at]
  omega

/-- The loop over a list. -/
def scanList (body : S → α → Option S) : S → List α → S × List α
  | s, []      => (s, [])
  | s, x :: xs =>
      if x = zero then (s, x :: xs)
      else match body s x with
        | none    => (s, x :: xs)
        | some s' => scanList body s' xs

end Operations

section Lemmas

variable {content : List α} {zero : α}

/-- The position and everything read is inside. -/
structure Inside (n : Nat) (c : Cursor) : Prop where
  at_le : c.at_ ≤ n
  reads_lt : ∀ i ∈ c.reads, i < n

theorem peek_inside {c : Cursor} (h : Inside content.length c) : Inside content.length (c.peek content zero).2 := by
  unfold peek
  split
  · next hlt =>
      refine ⟨h.at_le, ?_⟩
      intro i hi
      rcases List.mem_cons.mp hi with rfl | hi
      · exact hlt
      · exact h.reads_lt i hi
  · exact h

theorem eat_inside {c : Cursor} (h : Inside content.length c) : Inside content.length (c.eat content) := by
  unfold eat
  split
  · next hlt => exact ⟨hlt, h.reads_lt⟩
  · exact h

/-- What is copied from the inside. -/
theorem copy_inside {c : Cursor} {n start size : Nat} (h : Inside n c) (hsize : start + size ≤ n) :
    Inside n (c.copy start size) := by
  refine ⟨h.at_le, ?_⟩
  intro i hi
  rcases List.mem_append.mp hi with hi | hi
  · exact lt_of_mem_positions (List.mem_reverse.mp hi) hsize
  · exact h.reads_lt i hi

theorem headD_drop (c : Cursor) : (c.peek content zero).1 = (content.drop c.at_).headD zero := by
  unfold peek
  split
  · next hlt =>
      rw [List.drop_eq_getElem_cons hlt]
      simp [hlt]
  · next hge =>
      rw [List.drop_eq_nil_of_le (Nat.not_lt.mp hge)]
      rfl

theorem drop_eat (c : Cursor) : content.drop (c.eat content).at_ = (content.drop c.at_).tail := by
  unfold eat
  split
  · rw [List.tail_drop]
  · next hge =>
      rw [List.drop_eq_nil_of_le (Nat.not_lt.mp hge)]
      rfl

/-- One position behind an item. -/
theorem drop_eat_of_cons {c : Cursor} {x : α} {xs : List α} (h : content.drop c.at_ = x :: xs) :
    content.drop (c.eat content).at_ = xs := by
  rw [drop_eat, h]
  rfl

theorem peek_of_cons {c : Cursor} {x : α} {xs : List α} (h : content.drop c.at_ = x :: xs) :
    (c.peek content zero).1 = x := by
  rw [headD_drop, h]
  rfl

variable [DecidableEq α] {body : S → α → Option S}

/-- **The loop on a cursor** is the loop on what the cursor sees. -/
theorem drop_scan (s : S) (c : Cursor) :
    (c.scan content zero body s).1 = (scanList zero body s (content.drop c.at_)).1 ∧
      content.drop (c.scan content zero body s).2.at_ = (scanList zero body s (content.drop c.at_)).2 := by
  fun_induction scan content zero body s c with
  | case1 s c h =>
      rw [peek_at]
      rw [headD_drop] at h
      cases hdrop : content.drop c.at_ with
      | nil => exact ⟨rfl, rfl⟩
      | cons x xs =>
          rw [hdrop] at h
          rw [scanList, if_pos (show x = zero from h)]
          exact ⟨rfl, rfl⟩
  | case2 s c h hbody =>
      rw [peek_at]
      rw [headD_drop] at h hbody
      cases hdrop : content.drop c.at_ with
      | nil => exact ⟨rfl, rfl⟩
      | cons x xs =>
          rw [hdrop] at h hbody
          rw [scanList, if_neg (show ¬ x = zero from h), show body s x = none from hbody]
          exact ⟨rfl, rfl⟩
  | case3 s c h s' hbody ih =>
      rw [drop_eat, peek_at] at ih
      rw [headD_drop] at h hbody
      cases hdrop : content.drop c.at_ with
      | nil =>
          rw [hdrop] at h
          exact absurd rfl h
      | cons x xs =>
          rw [hdrop] at h hbody ih
          rw [scanList, if_neg (show ¬ x = zero from h), show body s x = some s' from hbody]
          exact ih

/-- **The loop reads inside.** -/
theorem scan_inside {s : S} {c : Cursor} (h : Inside content.length c) :
    Inside content.length (c.scan content zero body s).2 := by
  fun_induction scan content zero body s c with
  | case1 => exact peek_inside h
  | case2 => exact peek_inside h
  | case3 _ _ _ _ _ ih => exact ih (eat_inside (peek_inside h))

end Lemmas

end Cursor
