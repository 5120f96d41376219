import Mathlib.Data.List.TakeWhile

/-!
# `Library.CString` — NUL-terminated byte strings

The value a `char *` denotes: the bytes from the pointer up to, and not including, the first NUL. The
structure carries the absence of NUL bytes as a field, so `strlen`, `strcmp` and friends need no side
condition. `CString.ofBytes` is the only way raw memory becomes a string: it cuts at the first NUL,
exactly as a reader of the pointer would.
-/

/-- A C string: its bytes, none of which is the terminator. -/
@[ext] structure CString where
  bytes : List UInt8
  noNul : (0 : UInt8) ∉ bytes
  deriving DecidableEq

namespace CString

/-- A taken prefix of non-NUL bytes holds no NUL. -/
theorem zero_notMem_takeWhile (mem : List UInt8) : (0 : UInt8) ∉ mem.takeWhile (· ≠ 0) := by
  intro h
  have := List.mem_takeWhile_imp h
  simp at this

/-- The string that starts at the first byte of `mem`. -/
def ofBytes (mem : List UInt8) : CString := ⟨mem.takeWhile (· ≠ 0), zero_notMem_takeWhile mem⟩

/-- The string a literal denotes. -/
def lit (s : String) : CString := ofBytes (s.toList.map fun c => c.toNat.toUInt8)

/-- `strlen`. -/
def length (s : CString) : Nat := s.bytes.length

/-- The empty string. -/
def empty : CString := ⟨[], by simp⟩

instance : Inhabited CString := ⟨empty⟩

/-- Concatenation (what `"%s%s"` prints). -/
def append (a b : CString) : CString :=
  ⟨a.bytes ++ b.bytes, by simp [a.noNul, b.noNul]⟩

instance : Append CString := ⟨append⟩

@[simp] theorem bytes_append (a b : CString) : (a ++ b).bytes = a.bytes ++ b.bytes := rfl

@[simp] theorem length_append (a b : CString) : (a ++ b).length = a.length + b.length := by
  simp [length]

@[simp] theorem bytes_empty : empty.bytes = [] := rfl

@[simp] theorem bytes_ofBytes (mem : List UInt8) : (ofBytes mem).bytes = mem.takeWhile (· ≠ 0) := rfl

/-- Memory without a NUL is read whole. -/
theorem takeWhile_eq_self {mem : List UInt8} (h : (0 : UInt8) ∉ mem) :
    mem.takeWhile (· ≠ 0) = mem := by
  rw [List.takeWhile_eq_self_iff]
  intro b hb
  have : b ≠ 0 := fun he => h (he ▸ hb)
  simpa using this

/-- A reader stops at the first NUL. -/
theorem ofBytes_append_zero (a b : List UInt8) : ofBytes (a ++ 0 :: b) = ofBytes a := by
  apply CString.ext
  show (a ++ 0 :: b).takeWhile (· ≠ 0) = a.takeWhile (· ≠ 0)
  induction a with
  | nil => simp
  | cons c a ih =>
      rw [List.cons_append, List.takeWhile_cons, List.takeWhile_cons, ih]

/-- Bytes behind a NUL are not read. -/
theorem ofBytes_append_of_mem {a : List UInt8} (h : (0 : UInt8) ∈ a) (b : List UInt8) :
    ofBytes (a ++ b) = ofBytes a := by
  obtain ⟨pre, post, rfl⟩ := List.append_of_mem h
  rw [List.append_assoc, List.cons_append, ofBytes_append_zero, ofBytes_append_zero]

/-- Bytes without a NUL are all read. -/
theorem bytes_ofBytes_append {a : List UInt8} (h : (0 : UInt8) ∉ a) (b : List UInt8) :
    (ofBytes (a ++ b)).bytes = a ++ (ofBytes b).bytes := by
  show (a ++ b).takeWhile (· ≠ 0) = a ++ b.takeWhile (· ≠ 0)
  apply List.takeWhile_append_of_pos
  intro c hc
  have : c ≠ 0 := fun h0 => h (h0 ▸ hc)
  simpa using this

/-- A string in memory has its terminator behind it. -/
theorem exists_eq_append_zero {mem : List UInt8} (h : (0 : UInt8) ∈ mem) :
    ∃ rest, mem = (ofBytes mem).bytes ++ 0 :: rest := by
  induction mem with
  | nil => exact absurd h List.not_mem_nil
  | cons c mem ih =>
      by_cases hc : c = 0
      · subst hc
        exact ⟨mem, rfl⟩
      · obtain ⟨rest, hrest⟩ := ih ((List.mem_cons.mp h).resolve_left (Ne.symm hc))
        refine ⟨rest, ?_⟩
        rw [bytes_ofBytes, List.takeWhile_cons_of_pos (by simpa using hc), List.cons_append]
        exact congrArg (c :: ·) hrest

/-- Reading back the bytes of a string gives the string. -/
@[simp] theorem ofBytes_bytes (s : CString) : ofBytes s.bytes = s :=
  CString.ext (takeWhile_eq_self s.noNul)

/-! ## Strings one behind the other -/

/-- Strings in one piece of memory, each with its terminator. -/
def joined (texts : List CString) : List UInt8 := texts.flatMap fun s => s.bytes ++ [0]

/-- The next `n` strings of a piece of memory, and what is behind them: a reader that goes on behind each terminator. -/
def walk : Nat → List UInt8 → List CString × List UInt8
  | 0,     mem => ([], mem)
  | n + 1, mem =>
      let s := ofBytes mem
      let later := walk n (mem.drop (s.length + 1))
      (s :: later.1, later.2)

theorem length_walk (n : Nat) (mem : List UInt8) : (walk n mem).1.length = n := by
  induction n generalizing mem with
  | zero => rfl
  | succ n ih =>
      rw [walk, List.length_cons]
      exact congrArg (· + 1) (ih _)

theorem joined_append (texts texts' : List CString) : joined (texts ++ texts') = joined texts ++ joined texts' :=
  List.flatMap_append

/-- **Walking** over strings that were joined gives the strings. -/
theorem walk_joined (texts : List CString) (rest : List UInt8) :
    walk texts.length (joined texts ++ rest) = (texts, rest) := by
  induction texts with
  | nil => rfl
  | cons s texts ih =>
      have hmem : joined (s :: texts) ++ rest = s.bytes ++ 0 :: (joined texts ++ rest) := by simp [joined]
      have hfirst : ofBytes (joined (s :: texts) ++ rest) = s := by
        rw [hmem, ofBytes_append_zero, ofBytes_bytes]
      have hrest : (joined (s :: texts) ++ rest).drop (s.length + 1) = joined texts ++ rest := by
        rw [hmem, ← List.singleton_append, ← List.append_assoc]
        apply List.drop_left'
        simp [length]
      rw [List.length_cons, walk, hfirst, hrest, ih]

end CString
