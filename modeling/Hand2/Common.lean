import Hand2.Library.CString

/-!
# `Common` — the helpers of `hand_common.h`

String comparison, digit tests and the checked `format_string`. The helpers that end the process
(`format_string` on a short buffer, a failed `assert`) and the reads that crash it are *outcomes* of
the model: every function that can reach one returns `Except Fault`.
-/

namespace Hand2

/-- The ways a run of the program ends before its function returns. -/
inductive Fault where
  /-- `exit(0)` after a message that starts with `Fatal:`. -/
  | exit
  /-- A read through a null pointer. -/
  | nullPointer
  /-- A failed `assert`. -/
  | assertion
  /-- The bound on loop rounds handed to the model was too small (the program itself has none). -/
  | outOfFuel
  deriving DecidableEq, Repr, Inhabited

/-- `MAX_PATH_LEN`. -/
def maxPathLen : Nat := 65536

/-- `MAX_URL_LEN`. -/
def maxUrlLen : Nat := 256

/-- The largest value of a C `int`. -/
def intMax : Int := 2147483647

/-- Conversion of a wide integer to `int` (two's complement, as gcc and clang define it). -/
def cInt (x : Int) : Int := Int.bmod x 4294967296

/-- A value in range converts to itself. -/
theorem cInt_eq {x : Int} (h0 : -2147483648 ≤ x) (h1 : x ≤ intMax) : cInt x = x := by
  simp only [cInt, Int.bmod, intMax] at *
  omega

/-- Converting between two additions makes no difference. -/
theorem cInt_add_cInt (a b : Int) : cInt (cInt a + b) = cInt (a + b) := by
  simp [cInt]

/-- Conversion of an `int` to `size_t`. -/
def sizeT (x : Int) : Nat := if x < 0 then (x + 18446744073709551616).toNat else x.toNat

/-- `format_string`: the text if it fits a buffer of `size` bytes with its NUL; else the process ends
    (`Fatal: buffer too short`). -/
def formatString (size : Nat) (text : CString) : Except Fault CString :=
  if text.length ≥ size then .error .exit else .ok text

theorem formatString_ok {size : Nat} {text : CString} (h : text.length < size) :
    formatString size text = .ok text := by
  simp [formatString, Nat.not_le.mpr h]

theorem formatString_exit {size : Nat} {text : CString} (h : size ≤ text.length) :
    formatString size text = .error .exit := by
  simp [formatString, h]

theorem length_lt_of_formatString {size : Nat} {text out : CString} (h : formatString size text = .ok out) :
    text.length < size := by
  by_contra hlong
  rw [formatString_exit (Nat.not_lt.mp hlong)] at h
  cases h

theorem eq_of_formatString {size : Nat} {text out : CString} (h : formatString size text = .ok out) : text = out := by
  rw [formatString_ok (length_lt_of_formatString h)] at h
  exact Except.ok.inj h

/-- A failure leaves the state it happens in. -/
def failingIn {S α : Type} (s : S) : Except Fault α → Except (Fault × S) α
  | .ok a    => .ok a
  | .error e => .error (e, s)

theorem eq_of_failingIn {S α : Type} {s : S} {x : Except Fault α} {a : α} (h : failingIn s x = .ok a) :
    x = .ok a := by
  cases x with
  | ok a' =>
      injection h with h
      rw [h]
  | error e => cases h

/-- `is_digit`. -/
def isDigit (c : UInt8) : Bool := 48 ≤ c && c ≤ 57

/-! ## Printed numbers -/

/-- The byte `\n`. -/
def newline : UInt8 := 10

/-- `"%d"`. -/
def decimal (x : Int) : List UInt8 :=
  (if x < 0 then [45] else []) ++ (Nat.toDigits 10 x.natAbs).map (fun c => c.toNat.toUInt8)

/-- A printed number is one line. -/
theorem newline_notMem_decimal (x : Int) : newline ∉ decimal x := by
  intro h
  rcases List.mem_append.mp h with h | h
  · split at h
    · exact absurd (List.mem_singleton.mp h) (by decide)
    · exact List.not_mem_nil h
  · obtain ⟨c, hc, hbyte⟩ := List.mem_map.mp h
    have hdigit : c.isDigit = true := Nat.isDigit_of_mem_toDigits (by omega) (by omega) hc
    simp only [Char.isDigit, Bool.and_eq_true, decide_eq_true_eq] at hdigit
    have hlow : 48 ≤ c.toNat := hdigit.1
    have hhigh : c.toNat ≤ 57 := hdigit.2
    have hval : c.toNat % 256 = 10 := congrArg UInt8.toNat hbyte
    omega

/-! ## String comparison -/

/-- The loop of `compare_string`, the two ends of the lists standing for the terminators. -/
def compareStringLoop : List UInt8 → List UInt8 → Bool
  | [], []           => true
  | a :: as, b :: bs => if a ≠ b then false else compareStringLoop as bs
  | _, _             => false

/-- `compare_string`. -/
def compareString (a b : CString) : Bool := compareStringLoop a.bytes b.bytes

theorem compareStringLoop_iff : ∀ as bs, compareStringLoop as bs = true ↔ as = bs
  | [], []           => by simp [compareStringLoop]
  | [], _ :: _       => by simp [compareStringLoop]
  | _ :: _, []       => by simp [compareStringLoop]
  | a :: as, b :: bs => by
      by_cases hab : a = b
      · simp [compareStringLoop, hab, compareStringLoop_iff as bs]
      · simp [compareStringLoop, hab]

/-- `compare_string` decides equality. -/
@[simp] theorem compareString_iff {a b : CString} : compareString a b = true ↔ a = b := by
  rw [compareString, compareStringLoop_iff]
  exact ⟨CString.ext, fun h => h ▸ rfl⟩

/-- `compare_substring`, the end of a list being a NUL. -/
def compareSubstring : List UInt8 → List UInt8 → Nat → Bool
  | _,      _,      0     => true
  | a :: as, b :: bs, n + 1 => if a ≠ b ∨ a = 0 ∨ b = 0 then false else compareSubstring as bs n
  | _,      _,      _ + 1 => false

/-- Lower-case an ASCII letter, as the two range tests of `compare_case_insensitive` do. -/
def toLowerAscii (c : UInt8) : UInt8 := if 65 ≤ c && c ≤ 90 then c - 65 + 97 else c

/-- The loop of `compare_case_insensitive`. -/
def compareCaseInsensitiveLoop : List UInt8 → List UInt8 → Bool
  | [], []           => true
  | a :: as, b :: bs => if toLowerAscii a ≠ toLowerAscii b then false else compareCaseInsensitiveLoop as bs
  | _, _             => false

/-- `compare_case_insensitive`. -/
def compareCaseInsensitive (a b : CString) : Bool := compareCaseInsensitiveLoop a.bytes b.bytes

theorem compareCaseInsensitiveLoop_iff :
    ∀ as bs, compareCaseInsensitiveLoop as bs = true ↔ as.map toLowerAscii = bs.map toLowerAscii
  | [], []           => by simp [compareCaseInsensitiveLoop]
  | [], _ :: _       => by simp [compareCaseInsensitiveLoop]
  | _ :: _, []       => by simp [compareCaseInsensitiveLoop]
  | a :: as, b :: bs => by
      by_cases hab : toLowerAscii a = toLowerAscii b
      · simp [compareCaseInsensitiveLoop, hab, compareCaseInsensitiveLoop_iff as bs]
      · simp [compareCaseInsensitiveLoop, hab]

/-- Two strings are equal ignoring ASCII case: their lower-cased bytes agree. -/
def EqIgnoreCase (a b : CString) : Prop := a.bytes.map toLowerAscii = b.bytes.map toLowerAscii

instance (a b : CString) : Decidable (EqIgnoreCase a b) :=
  inferInstanceAs (Decidable (a.bytes.map toLowerAscii = b.bytes.map toLowerAscii))

theorem EqIgnoreCase.symm {a b : CString} (h : EqIgnoreCase a b) : EqIgnoreCase b a := Eq.symm h

theorem EqIgnoreCase.trans {a b c : CString} (h : EqIgnoreCase a b) (h' : EqIgnoreCase b c) :
    EqIgnoreCase a c := Eq.trans h h'

/-- `compare_case_insensitive` decides equality ignoring ASCII case. -/
@[simp] theorem compareCaseInsensitive_iff {a b : CString} :
    compareCaseInsensitive a b = true ↔ EqIgnoreCase a b :=
  compareCaseInsensitiveLoop_iff _ _

end Hand2
