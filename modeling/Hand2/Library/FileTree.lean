import Mathlib.Data.Set.Finite.Basic
import Mathlib.Order.Basic

/-!
# `Library.FileTree` — trees of files, directories and symbolic links

A tree maps a *place*, the names from the root down, to what stands there. Only directories have anything
below them, which the structure carries, so a path of names cannot pass through a file or a link. Trees are
ordered by what they hold: deleting gives a smaller tree, and a lookup that succeeds in a smaller tree gives
the same in a larger one.
-/

namespace FileTree

/-- A component of a path as a program writes it: `.`, `..` or a name. -/
inductive Component (ν : Type) where
  | here
  | parent
  | name (n : ν)
  deriving DecidableEq

/-- What stands at a place. The target of a link starts at the root or at the directory the link is in. -/
inductive Entry (ν κ : Type) where
  | file (content : κ)
  | dir
  | link (absolute : Bool) (target : List (Component ν))
  deriving DecidableEq

namespace Entry

variable {ν κ : Type}

def isDir : Entry ν κ → Bool
  | dir => true
  | _   => false

def isLink : Entry ν κ → Bool
  | link _ _ => true
  | _        => false

end Entry

/-- A file tree: its root is a directory, and so is whatever has something below it. -/
@[ext] structure Tree (ν κ : Type) where
  entry : List ν → Option (Entry ν κ)
  root : entry [] = some .dir
  closed : ∀ p n, entry (p ++ [n]) ≠ none → entry p = some .dir
  finite : {p | entry p ≠ none}.Finite

namespace Tree

variable {ν κ : Type} {t t' : Tree ν κ} {p q : List ν}

/-! ## Places above and below -/

/-- Whatever has something below it is a directory. -/
theorem dir_of_append {r : List ν} (hr : r ≠ []) (h : t.entry (p ++ r) ≠ none) : t.entry p = some .dir := by
  induction r using List.reverseRecOn with
  | nil => exact absurd rfl hr
  | append_singleton r n ih =>
      rw [← List.append_assoc] at h
      have hdir := t.closed _ _ h
      by_cases hnil : r = []
      · rw [hnil, List.append_nil] at hdir
        exact hdir
      · exact ih hnil (by rw [hdir]; simp)

theorem ne_none_of_append {r : List ν} (h : t.entry (p ++ r) ≠ none) : t.entry p ≠ none := by
  by_cases hr : r = []
  · rwa [hr, List.append_nil] at h
  · rw [dir_of_append hr h]
    simp

theorem ne_none_above (hpq : p <+: q) (h : t.entry q ≠ none) : t.entry p ≠ none := by
  obtain ⟨r, rfl⟩ := hpq
  exact ne_none_of_append h

/-- Below nothing there is nothing. -/
theorem none_below (hpq : p <+: q) (h : t.entry p = none) : t.entry q = none := by
  by_contra hq
  exact ne_none_above hpq hq h

/-- What does not exist is not the root, so what is above it is something else. -/
theorem dropLast_ne_of_free (h : t.entry p = none) : p.dropLast ≠ p := by
  intro heq
  have hlen := congrArg List.length heq
  rw [List.length_dropLast] at hlen
  have hnil : p = [] := List.length_eq_zero_iff.mp (by omega)
  rw [hnil, t.root] at h
  exact absurd h (by simp)

/-- Only a directory has something below it. -/
theorem eq_of_below (hpq : p <+: q) (h : t.entry q ≠ none) (hdir : t.entry p ≠ some .dir) : p = q := by
  obtain ⟨r, rfl⟩ := hpq
  by_contra hne
  exact hdir (dir_of_append (fun hr => hne (by rw [hr, List.append_nil])) h)

/-! ## The order -/

instance : PartialOrder (Tree ν κ) where
  le t t' := ∀ p e, t.entry p = some e → t'.entry p = some e
  le_refl _ _ _ h := h
  le_trans _ _ _ h h' p e hp := h' p e (h p e hp)
  le_antisymm t t' h h' := by
    refine Tree.ext (funext fun p => ?_)
    cases hp : t.entry p with
    | some e => exact (h p e hp).symm
    | none =>
        cases hp' : t'.entry p with
        | none => rfl
        | some e => exact absurd (h' p e hp') (by simp [hp])

theorem ne_none_of_le (h : t ≤ t') (hp : t.entry p ≠ none) : t'.entry p ≠ none := by
  obtain ⟨e, he⟩ := Option.ne_none_iff_exists'.mp hp
  rw [h p e he]
  simp

/-! ## Parts of a tree -/

/-- What stands at the places that satisfy `Q`. -/
def restrict (t : Tree ν κ) (Q : List ν → Prop) [DecidablePred Q] (hroot : Q [])
    (hclosed : ∀ p n, Q (p ++ [n]) → Q p) : Tree ν κ where
  entry p := if Q p then t.entry p else none
  root := by rw [if_pos hroot, t.root]
  closed p n h := by
    by_cases hQ : Q (p ++ [n])
    · rw [if_pos hQ] at h
      rw [if_pos (hclosed p n hQ), t.closed p n h]
    · rw [if_neg hQ] at h
      exact absurd rfl h
  finite := by
    refine t.finite.subset (fun p hp hnone => hp ?_)
    show (if Q p then t.entry p else none) = none
    rw [hnone, ite_self]

section Parts

variable [DecidableEq ν]

/-- The tree without the place `p` and what is below it. -/
def without (t : Tree ν κ) (p : List ν) (hp : p ≠ []) : Tree ν κ :=
  t.restrict (fun x => ¬ p <+: x) (fun h => hp (List.prefix_nil.mp h))
    (fun x n h hx => h (hx.trans (List.prefix_append x [n])))

/-- The tree with nothing at or below `p` but what leads to `q`. -/
def only (t : Tree ν κ) (p q : List ν) : Tree ν κ :=
  t.restrict (fun x => ¬ p <+: x ∨ x <+: q) (Or.inr List.nil_prefix) (fun x n h => by
    rcases h with h | h
    · exact Or.inl (fun hx => h (hx.trans (List.prefix_append x [n])))
    · exact Or.inr ((List.prefix_append x [n]).trans h))

theorem without_entry (hp : p ≠ []) (x : List ν) :
    (t.without p hp).entry x = if ¬ p <+: x then t.entry x else none := rfl

theorem only_entry (x : List ν) : (t.only p q).entry x = if ¬ p <+: x ∨ x <+: q then t.entry x else none := rfl

theorem without_le (hp : p ≠ []) : t.without p hp ≤ t := by
  intro x e h
  rw [without_entry] at h
  split at h
  · exact h
  · exact absurd h (by simp)

theorem only_le : t.only p q ≤ t := by
  intro x e h
  rw [only_entry] at h
  split at h
  · exact h
  · exact absurd h (by simp)

end Parts

/-! ## Trees given by a list -/

section OfList

variable [DecidableEq ν]

/-- What a list of places and entries has at a place. -/
def lookup (l : List (List ν × Entry ν κ)) (p : List ν) : Option (Entry ν κ) :=
  if p = [] then some .dir else (l.find? (fun x => x.1 = p)).map Prod.snd

/-- What is found is in the list. -/
theorem mem_of_lookup {l : List (List ν × Entry ν κ)} {e : Entry ν κ} (hp : p ≠ []) (h : lookup l p = some e) :
    (p, e) ∈ l := by
  unfold lookup at h
  rw [if_neg hp] at h
  obtain ⟨x, hx, rfl⟩ := Option.map_eq_some_iff.mp h
  have hkey : x.1 = p := by simpa using List.find?_some hx
  rw [← hkey]
  exact List.mem_of_find?_eq_some hx

/-- The tree of a list in which every place stands in a directory. -/
def ofList (l : List (List ν × Entry ν κ)) (h : ∀ x ∈ l, lookup l x.1.dropLast = some .dir) : Tree ν κ where
  entry := lookup l
  root := if_pos rfl
  closed p n hn := by
    obtain ⟨e, he⟩ := Option.ne_none_iff_exists'.mp hn
    have hup := h _ (mem_of_lookup (by simp) he)
    rwa [List.dropLast_concat] at hup
  finite := by
    refine ((List.finite_toSet (l.map Prod.fst)).union (Set.finite_singleton [])).subset ?_
    intro p hp
    by_cases hnil : p = []
    · exact Or.inr hnil
    · obtain ⟨e, he⟩ := Option.ne_none_iff_exists'.mp hp
      exact Or.inl (List.mem_map.mpr ⟨(p, e), mem_of_lookup hnil he, rfl⟩)

end OfList

/-! ## Changing one place -/

/-- Nothing is below the place, and it is not the root. -/
structure Childless (t : Tree ν κ) (p : List ν) : Prop where
  ne_root : p ≠ []
  leaf : ∀ n, t.entry (p ++ [n]) = none

/-- A file or a link, or nothing at all. -/
theorem childless_of_ne_dir (h : t.entry p ≠ some .dir) : t.Childless p := by
  constructor
  · rintro rfl
    exact h t.root
  · intro n
    by_contra hn
    exact h (t.closed p n hn)

section Changes

variable [DecidableEq ν]

/-- Take away what stands at a place. -/
def remove (t : Tree ν κ) (p : List ν) (h : t.Childless p) : Tree ν κ where
  entry x := if x = p then none else t.entry x
  root := by rw [if_neg (fun hp => h.ne_root hp.symm), t.root]
  closed x n hx := by
    by_cases hxn : x ++ [n] = p
    · rw [if_pos hxn] at hx
      exact absurd rfl hx
    · rw [if_neg hxn] at hx
      by_cases hxp : x = p
      · rw [hxp] at hx
        exact absurd (h.leaf n) hx
      · rw [if_neg hxp, t.closed x n hx]
  finite := by
    refine t.finite.subset (fun x hx hnone => hx ?_)
    show (if x = p then none else t.entry x) = none
    rw [hnone, ite_self]

@[simp] theorem remove_entry (h : t.Childless p) (x : List ν) :
    (t.remove p h).entry x = if x = p then none else t.entry x := rfl

theorem remove_le (h : t.Childless p) : t.remove p h ≤ t := by
  intro x e hx
  rw [remove_entry] at hx
  split at hx
  · exact absurd hx (by simp)
  · exact hx

/-- Put something at a place in a directory. -/
def put (t : Tree ν κ) (p : List ν) (e : Entry ν κ) (h : t.Childless p)
    (hparent : t.entry p.dropLast = some .dir) : Tree ν κ where
  entry x := if x = p then some e else t.entry x
  root := by rw [if_neg (fun hp => h.ne_root hp.symm), t.root]
  closed x n hx := by
    by_cases hxn : x ++ [n] = p
    · have hx' : x = p.dropLast := by rw [← hxn, List.dropLast_concat]
      have hne : x ≠ p := by
        intro heq
        have := congrArg List.length (hxn.trans heq.symm)
        simp at this
      rw [if_neg hne, hx', hparent]
    · rw [if_neg hxn] at hx
      by_cases hxp : x = p
      · rw [hxp] at hx
        exact absurd (h.leaf n) hx
      · rw [if_neg hxp, t.closed x n hx]
  finite := by
    refine (t.finite.union (Set.finite_singleton p)).subset ?_
    intro x hx
    by_cases hxp : x = p
    · exact Or.inr hxp
    · refine Or.inl (fun hnone => hx ?_)
      show (if x = p then some e else t.entry x) = none
      rw [if_neg hxp, hnone]

@[simp] theorem put_entry {e : Entry ν κ} (h : t.Childless p) (hparent : t.entry p.dropLast = some .dir)
    (x : List ν) : (t.put p e h hparent).entry x = if x = p then some e else t.entry x := rfl

end Changes

end Tree

end FileTree
