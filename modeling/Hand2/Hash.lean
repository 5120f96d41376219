import Hand2.Common

/-!
# `Hash` — commit hashes (`GitCommitHash`)

`init_git_commit_hash` copies a 40-character string and its 7-character prefix into two zeroed buffers,
and leaves both zero for any other length. Both buffers are read as C strings, so a hash is a pair of
strings, and the structure carries what `init_git_commit_hash` and zeroing guarantee: the full hash has
40 characters or none, and the short one is its prefix.
-/

namespace Hand2

/-- `GIT_HASH_LEN`, `GIT_SHORT_HASH_LEN`. -/
def gitHashLen : Nat := 40
def gitShortHashLen : Nat := 7

/-- `GitCommitHash`. -/
structure GitCommitHash where
  full : CString
  trim : CString
  full_len : full.length = gitHashLen ∨ full = CString.empty
  trim_eq : trim.bytes = full.bytes.take gitShortHashLen
  deriving DecidableEq

namespace GitCommitHash

/-- The all-zero hash. -/
def zero : GitCommitHash := ⟨CString.empty, CString.empty, Or.inr rfl, rfl⟩

instance : Inhabited GitCommitHash := ⟨zero⟩

/-- The short hash is determined by the full one. -/
theorem ext_full {a b : GitCommitHash} (h : a.full = b.full) : a = b := by
  have ht : a.trim = b.trim := CString.ext (by rw [a.trim_eq, b.trim_eq, h])
  cases a; cases b; cases h; cases ht; rfl

end GitCommitHash

/-- `init_git_commit_hash`. -/
def initGitCommitHash (string : CString) : GitCommitHash :=
  if h : string.length = gitHashLen then
    { full := string
      trim := ⟨string.bytes.take gitShortHashLen, fun hm => string.noNul (List.mem_of_mem_take hm)⟩
      full_len := Or.inl h
      trim_eq := rfl }
  else GitCommitHash.zero

/-- A string of the right length is kept. -/
theorem initGitCommitHash_full {string : CString} (h : string.length = gitHashLen) :
    (initGitCommitHash string).full = string := by
  rw [initGitCommitHash, dif_pos h]

/-- Any other gives the zero hash. -/
theorem initGitCommitHash_zero {string : CString} (h : string.length ≠ gitHashLen) :
    initGitCommitHash string = GitCommitHash.zero := dif_neg h

/-- `hash_is_valid`, of a hash that is there: none of the bytes is zero. -/
def hashIsValid (hash : GitCommitHash) : Bool :=
  (List.range gitHashLen).all (fun i => hash.full.bytes.getD i 0 ≠ 0)

/-- A hash is valid if it has all its bytes. -/
theorem hashIsValid_iff {hash : GitCommitHash} : hashIsValid hash = true ↔ hash.full.length = gitHashLen := by
  unfold hashIsValid
  rw [List.all_eq_true]
  constructor
  · intro h
    rcases hash.full_len with hlen | hempty
    · exact hlen
    · have hfirst := h 0 (List.mem_range.mpr (by decide))
      rw [hempty] at hfirst
      exact absurd hfirst (by decide)
  · intro hlen i hi
    have hi' : i < hash.full.bytes.length := lt_of_lt_of_eq (List.mem_range.mp hi) hlen.symm
    have hmem : hash.full.bytes[i] ∈ hash.full.bytes := List.getElem_mem hi'
    simp only [List.getD, List.getElem?_eq_getElem hi', Option.getD_some, decide_eq_true_eq]
    intro hzero
    exact hash.full.noNul (hzero ▸ hmem)

/-- `compare_hash`. -/
def compareHash (a b : GitCommitHash) : Bool := compareString a.full b.full

/-- `compare_hash` decides equality. -/
@[simp] theorem compareHash_iff {a b : GitCommitHash} : compareHash a b = true ↔ a = b := by
  rw [compareHash, compareString_iff]
  exact ⟨GitCommitHash.ext_full, fun h => h ▸ rfl⟩

end Hand2
