import Hand2.Library.PathLookup

/-!
# `Library.FileCalls` — system calls on a file tree

The calls a program makes on paths. Those that look at something follow a link at the end of the path, those
that take a name away or make a directory do not. In what order a directory lists its entries is up to the
file system, so it is a parameter (`Listing`).

Each call has a lemma for the path of a known place (`…_place`) and one for what it does in general
(`…_cases`).
-/

namespace FileTree

variable {ν κ : Type} [DecidableEq ν]

/-- The order in which the directories of every tree list their entries, `.` and `..` possibly among them. -/
structure Listing (ν κ : Type) where
  children : Tree ν κ → List ν → List (Component ν)
  nodup : ∀ t p, (children t p).Nodup
  mem_iff : ∀ t p n, Component.name n ∈ children t p ↔ t.entry (p ++ [n]) ≠ none

/-- The names in a directory, in some order. -/
noncomputable def names (t : Tree ν κ) (d : List ν) : List ν :=
  (t.finite.preimage (f := fun n => d ++ [n]) (fun m _ n _ h => by simpa using h)).toFinset.toList

omit [DecidableEq ν] in
theorem mem_names {t : Tree ν κ} {d : List ν} {n : ν} : n ∈ names t d ↔ t.entry (d ++ [n]) ≠ none := by
  simp [names]

omit [DecidableEq ν] in
theorem nodup_names (t : Tree ν κ) (d : List ν) : (names t d).Nodup := Finset.nodup_toList _

/-- The listing in which the way to a place comes last. -/
noncomputable def Listing.last (p : List ν) : Listing ν κ where
  children t d :=
    ((names t d).filter (fun n => ¬ d ++ [n] <+: p) ++ (names t d).filter (fun n => d ++ [n] <+: p)).map .name
  nodup t d := by
    apply List.Nodup.map (fun m n h => by simpa using h)
    refine ((nodup_names t d).filter _).append ((nodup_names t d).filter _) ?_
    intro n hn hn'
    have h := (List.mem_filter.mp hn).2
    have h' := (List.mem_filter.mp hn').2
    simp only [decide_eq_true_eq] at h h'
    exact h h'
  mem_iff t d n := by
    rw [← mem_names]
    by_cases h : d ++ [n] <+: p <;> simp [h]

/-- Every directory above the place lists the way to it last. -/
def Listing.Last (l : Listing ν κ) (p : List ν) : Prop :=
  ∀ t d n r, p = d ++ n :: r → t.entry (d ++ [n]) ≠ none → ∃ others, l.children t d = others ++ [.name n]

theorem Listing.last_last (p : List ν) : (Listing.last (κ := κ) p).Last p := by
  intro t d n r hp hn
  refine ⟨((names t d).filter (fun n => ¬ d ++ [n] <+: p)).map .name, ?_⟩
  have hway : ∀ m, d ++ [m] <+: p ↔ m = n := by
    intro m
    rw [hp]
    constructor
    · intro h
      obtain ⟨s, hs⟩ := h
      rw [List.append_assoc, List.append_cancel_left_eq] at hs
      simpa using congrArg List.head? hs
    · rintro rfl
      exact ⟨r, by simp⟩
  have hlast : (names t d).filter (fun m => d ++ [m] <+: p) = [n] := by
    have heq : (names t d).filter (fun m => d ++ [m] <+: p) = (names t d).filter (· == n) :=
      List.filter_congr (fun m _ => by rw [Bool.eq_iff_iff]; simp [hway m])
    rw [heq, List.filter_beq, List.count_eq_one_of_mem (nodup_names t d) (mem_names.mpr hn)]
    rfl
  show List.map Component.name (_ ++ _) = _
  rw [List.map_append, hlast]
  rfl

section Calls

variable (maxLinks : Nat)

/-- `stat`. -/
def stat (t : Tree ν κ) (path : List (Component ν)) : Option (Entry ν κ) :=
  (resolve t true maxLinks [] path).bind t.entry

/-- `lstat`. -/
def lstat (t : Tree ν κ) (path : List (Component ν)) : Option (Entry ν κ) :=
  (resolve t false maxLinks [] path).bind t.entry

/-- `opendir`: the place of the directory. -/
def opendir (t : Tree ν κ) (path : List (Component ν)) : Option (List ν) :=
  match resolve t true maxLinks [] path with
  | some p =>
      match t.entry p with
      | some .dir => some p
      | _         => none
  | none => none

/-- `unlink`. -/
def unlink (t : Tree ν κ) (path : List (Component ν)) : Option (Tree ν κ) :=
  match resolve t false maxLinks [] path with
  | some p =>
      match h : t.entry p with
      | some (.file _)   => some (t.remove p (Tree.childless_of_ne_dir (by rw [h]; simp)))
      | some (.link _ _) => some (t.remove p (Tree.childless_of_ne_dir (by rw [h]; simp)))
      | _                => none
  | none => none

/-- The listing shows no entry. -/
def Listing.Empty (l : Listing ν κ) (t : Tree ν κ) (p : List ν) : Prop :=
  ∀ c ∈ l.children t p, c = .here ∨ c = .parent

instance (l : Listing ν κ) (t : Tree ν κ) (p : List ν) : Decidable (l.Empty t p) :=
  inferInstanceAs (Decidable (∀ c ∈ l.children t p, c = .here ∨ c = .parent))

omit [DecidableEq ν] in
theorem Listing.empty_iff (l : Listing ν κ) {t : Tree ν κ} {p : List ν} :
    l.Empty t p ↔ ∀ n, t.entry (p ++ [n]) = none := by
  constructor
  · intro h n
    by_contra hn
    rcases h _ ((l.mem_iff t p n).mpr hn) with hc | hc <;> exact absurd hc (by simp)
  · intro h c hc
    cases c with
    | here => exact Or.inl rfl
    | parent => exact Or.inr rfl
    | name n => exact absurd (h n) ((l.mem_iff t p n).mp hc)

/-- The last component of the path is a name. -/
def endsInName (path : List (Component ν)) : Bool :=
  match path.getLast? with
  | some (.name _) => true
  | _              => false

/-- `rmdir`, on a directory that lists nothing. It refuses a path that ends in `.` or `..`. -/
def rmdir (l : Listing ν κ) (t : Tree ν κ) (path : List (Component ν)) : Option (Tree ν κ) :=
  if endsInName path then
    match resolve t false maxLinks [] path with
    | some p =>
        match t.entry p with
        | some .dir =>
            if h : p ≠ [] ∧ l.Empty t p then some (t.remove p ⟨h.1, l.empty_iff.mp h.2⟩) else none
        | _ => none
    | none => none
  else none

/-- `mkdir`. -/
def mkdir (t : Tree ν κ) (path : List (Component ν)) : Option (Tree ν κ) :=
  match resolve t false maxLinks [] path with
  | some p =>
      match h : t.entry p, hup : t.entry p.dropLast with
      | none, some .dir => some (t.put p .dir (Tree.childless_of_ne_dir (by rw [h]; simp)) hup)
      | _, _            => none
  | none => none

/-- `fopen(path, "rb")`: the place of the file. -/
def openRead (t : Tree ν κ) (path : List (Component ν)) : Option (List ν) :=
  match resolve t true maxLinks [] path with
  | some p =>
      match t.entry p with
      | some (.file _) => some p
      | _              => none
  | none => none

/-- Give the file at a place a new content. -/
def writeAt (t : Tree ν κ) (p : List ν) (content : κ) : Option (Tree ν κ) :=
  match h : t.entry p, hup : t.entry p.dropLast with
  | none, some .dir          => some (t.put p (.file content) (Tree.childless_of_ne_dir (by rw [h]; simp)) hup)
  | some (.file _), some .dir => some (t.put p (.file content) (Tree.childless_of_ne_dir (by rw [h]; simp)) hup)
  | _, _                     => none

/-- `fopen(path, "wb")`: the place of the file, and the tree with that file created, or emptied. -/
def openWrite (empty : κ) (t : Tree ν κ) (path : List (Component ν)) : Option (List ν × Tree ν κ) :=
  match resolve t true maxLinks [] path with
  | some p => (writeAt t p empty).map (fun t' => (p, t'))
  | none   => none

/-- What the file at a place holds. -/
def contentAt (t : Tree ν κ) (p : List ν) : Option κ :=
  match t.entry p with
  | some (.file content) => some content
  | _                    => none

variable {maxLinks} {t t' : Tree ν κ} {p : List ν} {path : List (Component ν)}

/-! ## Looking -/

omit [DecidableEq ν] in
theorem stat_resolved (hpath : resolve t true maxLinks [] path = some p) : stat maxLinks t path = t.entry p := by
  rw [stat, hpath]
  rfl

omit [DecidableEq ν] in
theorem stat_place {e : Entry ν κ} (h : t.entry p = some e) (he : e.isLink = false) :
    stat maxLinks t (pathOf p) = some e := by
  unfold stat
  rw [resolve_place_follow maxLinks h he]
  exact h

omit [DecidableEq ν] in
/-- What is seen in a smaller tree is seen in a larger one. -/
theorem stat_mono (hle : t ≤ t') {e : Entry ν κ} (h : stat maxLinks t path = some e) :
    stat maxLinks t' path = some e := by
  unfold stat at *
  obtain ⟨p, hp, he⟩ := Option.bind_eq_some_iff.mp h
  rw [resolve_mono hle hp (by rw [he]; simp)]
  exact hle p e he

omit [DecidableEq ν] in
/-- No link is ever seen. -/
theorem stat_not_link {e : Entry ν κ} (h : stat maxLinks t path = some e) : e.isLink = false := by
  unfold stat at h
  obtain ⟨p, hp, he⟩ := Option.bind_eq_some_iff.mp h
  cases e with
  | link absolute target => exact absurd he (resolve_not_link t.root hp absolute target)
  | _ => rfl

omit [DecidableEq ν] in
/-- What is seen at the end of a path is what is seen at its place. -/
theorem stat_pathOf {e : Entry ν κ} (hp : resolve t false maxLinks [] path = some p) (hexists : t.entry p ≠ none)
    (h : stat maxLinks t path = some e) : stat maxLinks t (pathOf p) = some e := by
  unfold stat at *
  obtain ⟨r, hr, he⟩ := Option.bind_eq_some_iff.mp h
  rw [follow_place (Nat.le_refl maxLinks) t.root hp hexists hr]
  exact he

omit [DecidableEq ν] in
theorem opendir_resolved (hpath : resolve t true maxLinks [] path = some p) (h : t.entry p = some .dir) :
    opendir maxLinks t path = some p := by
  unfold opendir
  rw [hpath]
  simp only [h]

omit [DecidableEq ν] in
theorem opendir_place (h : t.entry p = some .dir) : opendir maxLinks t (pathOf p) = some p :=
  opendir_resolved (resolve_place_follow maxLinks h rfl) h

omit [DecidableEq ν] in
/-- Only what is seen as a directory can be opened as one. -/
theorem opendir_eq_none (h : stat maxLinks t path ≠ some .dir) : opendir maxLinks t path = none := by
  unfold opendir
  cases hr : resolve t true maxLinks [] path with
  | none => rfl
  | some p =>
      unfold stat at h
      rw [hr] at h
      cases hp : t.entry p with
      | none => simp only [hp]
      | some e =>
          cases e with
          | dir => exact absurd hp h
          | _ => simp only [hp]

/-! ## Taking away -/

theorem unlink_place {e : Entry ν κ} (h : t.entry p = some e) (he : e ≠ .dir) :
    unlink maxLinks t (pathOf p) = some (t.remove p (Tree.childless_of_ne_dir (by rw [h]; simpa using he))) := by
  unfold unlink
  rw [resolve_place maxLinks (by rw [h]; simp)]
  dsimp only
  split
  · rfl
  · rfl
  · next hfile hlink =>
      cases e with
      | file content => exact absurd h (hfile content)
      | dir => exact absurd rfl he
      | link absolute target => exact absurd h (hlink absolute target)

theorem unlink_cases (h : unlink maxLinks t path = some t') :
    ∃ p, ∃ hp : t.Childless p, resolve t false maxLinks [] path = some p ∧ t.entry p ≠ none ∧ t' = t.remove p hp := by
  unfold unlink at h
  split at h
  · next p hp =>
      split at h
      · next hfile =>
          injection h with h
          exact ⟨p, _, hp, by rw [hfile]; simp, h.symm⟩
      · next hlink =>
          injection h with h
          exact ⟨p, _, hp, by rw [hlink]; simp, h.symm⟩
      · exact absurd h (by simp)
  · exact absurd h (by simp)

omit [DecidableEq ν] in
@[simp] theorem endsInName_append (path : List (Component ν)) (n : ν) :
    endsInName (path ++ [.name n]) = true := by
  rw [endsInName, List.getLast?_concat]

omit [DecidableEq ν] in
theorem endsInName_pathOf (hp : p ≠ []) : endsInName (pathOf p) = true := by
  obtain ⟨q, n, rfl⟩ := (List.eq_nil_or_concat p).resolve_left hp
  rw [List.concat_eq_append, pathOf_append]
  exact endsInName_append _ n

theorem rmdir_place (l : Listing ν κ) (h : t.entry p = some .dir) (hp : t.Childless p) :
    rmdir maxLinks l t (pathOf p) = some (t.remove p hp) := by
  unfold rmdir
  rw [if_pos (endsInName_pathOf hp.ne_root), resolve_place maxLinks (by rw [h]; simp)]
  simp only [h]
  rw [dif_pos ⟨hp.ne_root, l.empty_iff.mpr hp.leaf⟩]

/-- A directory with something in it stays. -/
theorem rmdir_eq_none (l : Listing ν κ) (hp : ¬ t.Childless p) (hexists : t.entry p ≠ none) :
    rmdir maxLinks l t (pathOf p) = none := by
  unfold rmdir
  split
  · rw [resolve_place maxLinks hexists]
    dsimp only
    split
    · rw [dif_neg (fun h => hp ⟨h.1, l.empty_iff.mp h.2⟩)]
    · rfl
  · rfl

theorem rmdir_cases {l : Listing ν κ} (h : rmdir maxLinks l t path = some t') :
    ∃ p, ∃ hp : t.Childless p, endsInName path = true ∧ resolve t false maxLinks [] path = some p ∧
      t.entry p = some .dir ∧ t' = t.remove p hp := by
  unfold rmdir at h
  split at h
  · next hname =>
      split at h
      · next p hp =>
          split at h
          · next hdir =>
              split at h
              · injection h with h
                exact ⟨p, _, hname, hp, hdir, h.symm⟩
              · exact absurd h (by simp)
          · exact absurd h (by simp)
      · exact absurd h (by simp)
  · exact absurd h (by simp)

/-! ## Making -/

/-- The same place holds the same kind of thing, and links stay as they are: what making directories and
    writing files leaves of a tree. -/
def Keeps (t t' : Tree ν κ) : Prop :=
  ∀ p e, t.entry p = some e → ∃ e', t'.entry p = some e' ∧ e'.isDir = e.isDir ∧ e'.isLink = e.isLink

omit [DecidableEq ν] in
theorem Keeps.refl (t : Tree ν κ) : Keeps t t := fun _ e h => ⟨e, h, rfl, rfl⟩

omit [DecidableEq ν] in
theorem Keeps.trans {t'' : Tree ν κ} (h : Keeps t t') (h' : Keeps t' t'') : Keeps t t'' := by
  intro p e hp
  obtain ⟨e', hp', hdir, hlink⟩ := h p e hp
  obtain ⟨e'', hp'', hdir', hlink'⟩ := h' p e' hp'
  exact ⟨e'', hp'', hdir'.trans hdir, hlink'.trans hlink⟩

/-- A thing put where there was nothing, or one of its kind. -/
theorem keeps_put {e : Entry ν κ} (h : t.Childless p) (hup : t.entry p.dropLast = some .dir)
    (hsame : ∀ e', t.entry p = some e' → e.isDir = e'.isDir ∧ e.isLink = e'.isLink) :
    Keeps t (t.put p e h hup) := by
  intro x e' hx
  rw [Tree.put_entry]
  by_cases hxp : x = p
  · rw [if_pos hxp]
    exact ⟨e, rfl, hsame e' (hxp ▸ hx)⟩
  · rw [if_neg hxp]
    exact ⟨e', hx, rfl, rfl⟩

/-- A path that leads to a free place in a directory. -/
structure LeadsToFree (maxLinks : Nat) (t : Tree ν κ) (path : List (Component ν)) (p : List ν) : Prop where
  path : resolve t false maxLinks [] path = some p
  free : t.entry p = none
  up : t.entry p.dropLast = some .dir

omit [DecidableEq ν] in
theorem leadsToFree_place (maxLinks : Nat) {n : ν} (hdir : t.entry p = some .dir) (hfree : t.entry (p ++ [n]) = none) :
    LeadsToFree maxLinks t (pathOf (p ++ [n])) (p ++ [n]) :=
  ⟨resolve_free maxLinks hdir hfree, hfree, by rw [List.dropLast_concat, hdir]⟩

omit [DecidableEq ν] in
/-- What is free is no link, so following makes no difference. -/
theorem LeadsToFree.follow (h : LeadsToFree maxLinks t path p) : resolve t true maxLinks [] path = some p :=
  resolve_follow t.root h.path (by rw [h.free]; simp)

theorem mkdir_free (h : LeadsToFree maxLinks t path p) :
    mkdir maxLinks t path = some (t.put p .dir (Tree.childless_of_ne_dir (by rw [h.free]; simp)) h.up) := by
  unfold mkdir
  rw [h.path]
  dsimp only
  split
  · rfl
  · next hnone => exact absurd h.up (hnone h.free)

theorem keeps_mkdir (h : mkdir maxLinks t path = some t') : Keeps t t' := by
  unfold mkdir at h
  split at h
  · next p hp =>
      split at h
      · next hfree hup =>
          injection h with h
          rw [← h]
          exact keeps_put _ _ (fun e' he' => absurd he' (by rw [hfree]; simp))
      · exact absurd h (by simp)
  · exact absurd h (by simp)

theorem keeps_writeAt {content : κ} (h : writeAt t p content = some t') : Keeps t t' := by
  unfold writeAt at h
  split at h
  · next hfree hup =>
      injection h with h
      rw [← h]
      exact keeps_put _ _ (fun e' he' => absurd he' (by rw [hfree]; simp))
  · next old hfile hup =>
      injection h with h
      rw [← h]
      refine keeps_put _ _ ?_
      intro e' he'
      rw [hfile] at he'
      injection he' with he'
      rw [← he']
      exact ⟨rfl, rfl⟩
  · exact absurd h (by simp)

/-- A file is written where there is nothing, or over a file. -/
theorem writeAt_entry (content : κ) (hup : t.entry p.dropLast = some .dir)
    (hplace : t.entry p = none ∨ ∃ old, t.entry p = some (.file old)) :
    ∃ t', writeAt t p content = some t' ∧ ∀ x, t'.entry x = if x = p then some (.file content) else t.entry x := by
  unfold writeAt
  split
  · exact ⟨_, rfl, fun x => rfl⟩
  · exact ⟨_, rfl, fun x => rfl⟩
  · next hnone hfile =>
      rcases hplace with hplace | ⟨old, hplace⟩
      · exact absurd hup (hnone hplace)
      · exact absurd hup (hfile old hplace)

omit [DecidableEq ν] in
theorem openRead_resolved {content : κ} (hpath : resolve t true maxLinks [] path = some p)
    (h : t.entry p = some (.file content)) : openRead maxLinks t path = some p := by
  unfold openRead
  rw [hpath]
  simp only [h]

theorem openWrite_free (empty : κ) (h : LeadsToFree maxLinks t path p) :
    ∃ t', openWrite maxLinks empty t path = some (p, t') ∧
      ∀ x, t'.entry x = if x = p then some (.file empty) else t.entry x := by
  obtain ⟨t', hwrite, hentry⟩ := writeAt_entry empty h.up (Or.inl h.free)
  refine ⟨t', ?_, hentry⟩
  unfold openWrite
  rw [h.follow]
  dsimp only
  rw [hwrite]
  rfl

theorem keeps_openWrite {empty : κ} (h : openWrite maxLinks empty t path = some (p, t')) : Keeps t t' := by
  unfold openWrite at h
  split at h
  · next q hq =>
      obtain ⟨t'', hwrite, heq⟩ := Option.map_eq_some_iff.mp h
      obtain ⟨-, rfl⟩ := Prod.mk.inj heq
      exact keeps_writeAt hwrite
  · exact absurd h (by simp)

end Calls

end FileTree
