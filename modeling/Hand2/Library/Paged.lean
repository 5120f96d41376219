import Hand2.Library.Loops
import Mathlib.Algebra.Order.Group.Nat
import Mathlib.Data.Nat.Find
import Mathlib.Data.List.GetD

/-!
# `Library.Paged` — a listing delivered in pages

A listing is a sequence of pages; a reader asks for page after page and stops at the first empty one. What
such a reader sees is `upToEmpty`, the concatenation of the pages before it.
-/

namespace Paged

variable {α : Type}

/-- The `n` pages from page `p`, concatenated. -/
def concat (pages : Nat → List α) (p n : Nat) : List α := (List.range' p n).flatMap pages

@[simp] theorem concat_zero (pages : Nat → List α) (p : Nat) : concat pages p 0 = [] := rfl

theorem concat_succ (pages : Nat → List α) (p n : Nat) :
    concat pages p (n + 1) = pages p ++ concat pages (p + 1) n := by
  simp [concat, List.range'_succ]

/-- The pages split after the first `m`. -/
theorem concat_add (pages : Nat → List α) (p m n : Nat) :
    concat pages p (m + n) = concat pages p m ++ concat pages (p + m) n := by
  unfold concat
  rw [← List.range'_append_1, List.flatMap_append]

/-- What is in the concatenation is on one of the pages. -/
theorem mem_concat {pages : Nat → List α} {p n : Nat} {a : α} :
    a ∈ concat pages p n ↔ ∃ k, p ≤ k ∧ k < p + n ∧ a ∈ pages k := by
  unfold concat
  simp only [List.mem_flatMap, List.mem_range'_1, and_assoc]

/-- Pages numbered from one page later. -/
theorem concat_shift (pages : Nat → List α) (p n : Nat) :
    concat (fun k => pages (k + 1)) p n = concat pages (p + 1) n := by
  induction n generalizing p with
  | zero => rfl
  | succ n ih => rw [concat_succ, concat_succ, ih]

/-- Pages written out as a list. -/
theorem concat_getD (pages : List (List α)) :
    concat (fun n => pages.getD n []) 0 pages.length = pages.flatten := by
  induction pages with
  | nil => rfl
  | cons page pages ih =>
      rw [List.length_cons, concat_succ, ← concat_shift]
      show page ++ concat (fun n => pages.getD n []) 0 pages.length = _
      rw [ih, List.flatten_cons]

/-- The listing: all pages before the first empty one. -/
def upToEmpty (pages : Nat → List α) (h : ∃ n, pages n = []) : List α := concat pages 0 (Nat.find h)

/-- The listing is known once its first empty page is. -/
theorem upToEmpty_eq {pages : Nat → List α} {h : ∃ n, pages n = []} {n : Nat} (hn : pages n = [])
    (hfirst : ∀ k < n, pages k ≠ []) : upToEmpty pages h = concat pages 0 n := by
  have hfind : Nat.find h = n := (Nat.find_eq_iff h).mpr ⟨hn, hfirst⟩
  rw [upToEmpty, hfind]

/-! ## Pages asked for in groups

```
for(page = first;; page += width)
    request pages page .. page + width - 1
    for(i = 0; i < width; ++i)
        read page + i, counting its items;  if there are none, break
    if there were none, break
```

Both loops end on the count of the page that was read last. -/

section Groups

variable {β ε : Type}

/-- The inner loop: what has been read, and the number of items on the last page. -/
def readGroup (read : List α → List β → List β × Nat) : List (List α) → List β × Nat → List β × Nat
  | [],           s => s
  | page :: rest, s =>
      let s := read page s.1
      if s.2 = 0 then s else readGroup read rest s

/-- The outer loop, for at most `fuel` groups. A request may fail. -/
def readGroups (timeout : ε) (request : Nat → Except ε Unit) (read : List α → List β → List β × Nat)
    (pages : Nat → List α) (width : Nat) : Nat → Nat → List β → Except ε (List β)
  | 0,        _,    _      => .error timeout
  | fuel + 1, page, result => do
      let _ ← (List.range' page width).mapM request
      let s := readGroup read ((List.range' page width).map pages) (result, 0)
      if s.2 = 0 then .ok s.1 else readGroups timeout request read pages width fuel (page + width) s.1

variable {read : List α → List β → List β × Nat} {f : List α → List β} {pages : Nat → List α}

/-- A group without an empty page is read to its end. -/
theorem readGroup_full (hread : ∀ page result, read page result = (result ++ f page, page.length)) {width p : Nat}
    (hw : 0 < width) (hfull : ∀ k < width, pages (p + k) ≠ []) (result : List β) (count : Nat) :
    (readGroup read ((List.range' p width).map pages) (result, count)).1
        = result ++ (List.range' p width).flatMap (fun k => f (pages k)) ∧
      (readGroup read ((List.range' p width).map pages) (result, count)).2 ≠ 0 := by
  induction width generalizing p result count with
  | zero => exact absurd hw (Nat.lt_irrefl 0)
  | succ width ih =>
      have hlen : (pages p).length ≠ 0 := by
        rw [Ne, List.length_eq_zero_iff]
        exact hfull 0 (Nat.succ_pos width)
      rw [List.range'_succ, List.map_cons, readGroup, hread, if_neg hlen, List.flatMap_cons, ← List.append_assoc]
      cases width with
      | zero => exact ⟨by simp [readGroup], hlen⟩
      | succ width =>
          apply ih (Nat.succ_pos width)
          intro k hk
          rw [show p + 1 + k = p + (k + 1) by omega]
          exact hfull (k + 1) (Nat.succ_lt_succ hk)

/-- A group is read up to its first empty page. -/
theorem readGroup_empty (hread : ∀ page result, read page result = (result ++ f page, page.length))
    (hnil : f [] = []) {width p n : Nat} (hn : n < width) (hempty : pages (p + n) = [])
    (hfull : ∀ k < n, pages (p + k) ≠ []) (result : List β) (count : Nat) :
    readGroup read ((List.range' p width).map pages) (result, count)
      = (result ++ (List.range' p n).flatMap (fun k => f (pages k)), 0) := by
  induction n generalizing p width result count with
  | zero =>
      obtain ⟨width, rfl⟩ : ∃ w, width = w + 1 := ⟨width - 1, by omega⟩
      rw [Nat.add_zero] at hempty
      rw [List.range'_succ, List.map_cons, readGroup, hread, hempty, hnil]
      rfl
  | succ n ih =>
      obtain ⟨width, rfl⟩ : ∃ w, width = w + 1 := ⟨width - 1, by omega⟩
      have hshift : ∀ k, p + 1 + k = p + (k + 1) := fun k => by omega
      have hlen : (pages p).length ≠ 0 := by
        rw [Ne, List.length_eq_zero_iff]
        exact hfull 0 (Nat.succ_pos n)
      rw [List.range'_succ, List.map_cons, readGroup, hread, if_neg hlen,
        ih (by omega) (by rw [hshift]; exact hempty) (fun k hk => by rw [hshift]; exact hfull (k + 1) (by omega)),
        List.range'_succ, List.flatMap_cons, List.append_assoc]

/-- The requests of a group. -/
theorem request_group {request : Nat → Except ε Unit} {e : ε} {good : Nat → Prop}
    (hgood : ∀ k, good k → request k = .ok ()) (hbad : ∀ k, ¬ good k → request k = .error e) (p width : Nat) :
    ((∀ k < width, good (p + k)) → (List.range' p width).mapM request = .ok ((List.range' p width).map fun _ => ())) ∧
    ((∃ k < width, ¬ good (p + k)) → (List.range' p width).mapM request = .error e) := by
  obtain ⟨hok, herror⟩ := Loops.mapM_checks (l := List.range' p width) hgood hbad
  constructor
  · intro hall
    apply hok
    intro k hk
    obtain ⟨i, hi, rfl⟩ := List.mem_range'.mp hk
    rw [Nat.one_mul]
    exact hall i hi
  · rintro ⟨k, hk, hlong⟩
    exact herror ⟨p + k, List.mem_range'.mpr ⟨k, hk, by rw [Nat.one_mul]⟩, hlong⟩

/-- A request that fails ends the loop with its group. -/
theorem readGroups_error {timeout e : ε} {request : Nat → Except ε Unit} {p width : Nat}
    (h : (List.range' p width).mapM request = .error e) (fuel : Nat) (result : List β) :
    readGroups timeout request read pages width (fuel + 1) p result = .error e := by
  rw [readGroups, h]
  rfl

/-- A group with an empty page is the last one. -/
theorem readGroups_last {timeout : ε} {request : Nat → Except ε Unit} {p width r : Nat} {us : List Unit}
    (h : (List.range' p width).mapM request = .ok us)
    (hread : ∀ page result, read page result = (result ++ f page, page.length)) (hnil : f [] = []) (hr : r < width)
    (hempty : pages (p + r) = []) (hfull : ∀ k < r, pages (p + k) ≠ []) (fuel : Nat) (result : List β) :
    readGroups timeout request read pages width (fuel + 1) p result
      = .ok (result ++ (List.range' p r).flatMap (fun k => f (pages k))) := by
  rw [readGroups, h]
  show (if (readGroup read _ (result, 0)).2 = 0 then _ else _) = _
  rw [readGroup_empty hread hnil hr hempty hfull result 0]
  rfl

/-- Behind a group without one the loop goes on. -/
theorem readGroups_next {timeout : ε} {request : Nat → Except ε Unit} {p width : Nat} {us : List Unit}
    (h : (List.range' p width).mapM request = .ok us)
    (hread : ∀ page result, read page result = (result ++ f page, page.length)) (hw : 0 < width)
    (hfull : ∀ k < width, pages (p + k) ≠ []) (fuel : Nat) (result : List β) :
    readGroups timeout request read pages width (fuel + 1) p result
      = readGroups timeout request read pages width fuel (p + width)
          (result ++ (List.range' p width).flatMap (fun k => f (pages k))) := by
  obtain ⟨hresult, hcount⟩ := readGroup_full hread hw hfull result 0
  rw [readGroups, h]
  show (if (readGroup read _ (result, 0)).2 = 0 then _ else _) = _
  rw [if_neg hcount, hresult]

/-- The groups from page `p`, of which `g` have no empty page and the next one has its first at place `r`. -/
theorem readGroups_groups {timeout e : ε} {request : Nat → Except ε Unit} {good : Nat → Prop}
    (hgood : ∀ k, good k → request k = .ok ()) (hbad : ∀ k, ¬ good k → request k = .error e)
    (hread : ∀ page result, read page result = (result ++ f page, page.length)) (hnil : f [] = [])
    {width g r : Nat} (hr : r < width) (p fuel : Nat) (hempty : pages (p + (width * g + r)) = [])
    (hfull : ∀ k < width * g + r, pages (p + k) ≠ []) (hfuel : g < fuel) (result : List β) :
    ((∀ k < width * (g + 1), good (p + k)) →
      readGroups timeout request read pages width fuel p result
        = .ok (result ++ (List.range' p (width * g + r)).flatMap (fun k => f (pages k)))) ∧
    ((∃ k < width * (g + 1), ¬ good (p + k)) →
      readGroups timeout request read pages width fuel p result = .error e) := by
  induction g generalizing p fuel result with
  | zero =>
      obtain ⟨fuel, rfl⟩ : ∃ f, fuel = f + 1 := ⟨fuel - 1, by omega⟩
      obtain ⟨hok, herror⟩ := request_group hgood hbad p width
      simp only [Nat.mul_zero, Nat.zero_add, Nat.mul_one] at hempty hfull ⊢
      constructor
      · intro hall
        exact readGroups_last (hok hall) hread hnil hr hempty hfull fuel result
      · intro hex
        exact readGroups_error (herror hex) fuel result
  | succ g ih =>
      obtain ⟨fuel, rfl⟩ : ∃ f, fuel = f + 1 := ⟨fuel - 1, by omega⟩
      have hw : 0 < width := by omega
      have hshift : ∀ k, p + width + k = p + (width + k) := fun k => Nat.add_assoc p width k
      have hgroups : width * (g + 1) + r = width + (width * g + r) := by
        rw [Nat.mul_add, Nat.mul_one]
        omega
      have hrequests : width * (g + 1 + 1) = width + width * (g + 1) := by
        rw [Nat.mul_add width (g + 1) 1, Nat.mul_one, Nat.add_comm]
      rw [hgroups] at hempty hfull
      obtain ⟨hok, herror⟩ := request_group hgood hbad p width
      obtain ⟨hlater, hlater'⟩ := ih (p + width) fuel (by rw [hshift]; exact hempty)
        (fun k hk => by rw [hshift]; exact hfull (width + k) (by omega)) (by omega)
        (result ++ (List.range' p width).flatMap (fun k => f (pages k)))
      -- the first group is read whole, and the loop goes on behind it
      have hgroup : (∀ k < width, good (p + k)) →
          readGroups timeout request read pages width (fuel + 1) p result
            = readGroups timeout request read pages width fuel (p + width)
                (result ++ (List.range' p width).flatMap (fun k => f (pages k))) :=
        fun hall => readGroups_next (hok hall) hread hw (fun k hk => hfull k (by omega)) fuel result
      rw [hrequests, hgroups]
      constructor
      · intro hall
        have hsplit : List.range' p (width + (width * g + r))
            = List.range' p width ++ List.range' (p + width) (width * g + r) := List.range'_append_1.symm
        rw [hgroup fun k hk => hall k (by omega), hlater fun k hk => by rw [hshift]; exact hall (width + k) (by omega),
          hsplit, List.flatMap_append, List.append_assoc]
      · rintro ⟨k, hk, hlong⟩
        by_cases hfirst : ∀ k < width, good (p + k)
        · rw [hgroup hfirst]
          have hge : width ≤ k := by
            by_contra hlt
            exact hlong (hfirst k (Nat.lt_of_not_le hlt))
          refine hlater' ⟨k - width, by omega, ?_⟩
          rw [hshift, show width + (k - width) = k by omega]
          exact hlong
        · have hex : ∃ k < width, ¬ good (p + k) := by
            by_contra hnone
            exact hfirst fun k hk => by
              by_contra hk'
              exact hnone ⟨k, hk, hk'⟩
          exact readGroups_error (herror hex) fuel result

/-- **Grouped reading loses and repeats nothing.** With the first empty page `n` pages from `p`, what is read is what
    the pages in front of it hold, if all requests up to the end of its group succeed; otherwise the loop fails. -/
theorem readGroups_eq {timeout e : ε} {request : Nat → Except ε Unit} {good : Nat → Prop}
    (hgood : ∀ k, good k → request k = .ok ()) (hbad : ∀ k, ¬ good k → request k = .error e)
    (hread : ∀ page result, read page result = (result ++ f page, page.length)) (hnil : f [] = [])
    {width p n fuel : Nat} (hw : 0 < width) (hempty : pages (p + n) = []) (hfull : ∀ k < n, pages (p + k) ≠ [])
    (hfuel : n / width < fuel) :
    ((∀ k < width * (n / width + 1), good (p + k)) →
      readGroups timeout request read pages width fuel p []
        = .ok ((List.range' p n).flatMap (fun k => f (pages k)))) ∧
    ((∃ k < width * (n / width + 1), ¬ good (p + k)) →
      readGroups timeout request read pages width fuel p [] = .error e) := by
  have hn : width * (n / width) + n % width = n := Nat.div_add_mod n width
  have hgroups : _ ∧ (_ → readGroups timeout request read pages width fuel p [] = _) :=
    readGroups_groups hgood hbad hread hnil (Nat.mod_lt n hw) p fuel (by rwa [hn]) (by rwa [hn]) hfuel []
  rwa [hn] at hgroups

end Groups

end Paged
