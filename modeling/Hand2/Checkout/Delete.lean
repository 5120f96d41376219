import Hand2.Checkout.Directories
import Mathlib.Data.Set.Finite.Lattice

/-!
# `Checkout.Delete` — what `linux_delete_directory` leaves behind

The walk asks `stat` what a child is, so a symbolic link counts as what it leads to. A link that leads to
nothing is skipped, one that leads to a directory has that directory emptied and then withstands `rmdir`;
either way it stays, and with it every directory above (`Stuck`). A link that leads to a file is unlinked, but
whether it leads there is asked when its turn comes, and by then anything the walk has passed may be gone.
-/

namespace Hand2

open FileTree

section Delete

variable {maxLinks : Nat} {listing : Listing CString (List UInt8)}

/-! ## Any run -/

/-- A link stands at the place. -/
def IsLink (fs : FileSystem) (p : List CString) : Prop :=
  ∃ absolute target, fs.entry p = some (.link absolute target)

/-- The place is seen as a file. -/
def LeadsToFile (maxLinks : Nat) (fs : FileSystem) (p : List CString) : Prop :=
  ∃ content, stat maxLinks fs (pathOf p) = some (.file content)

/-- A link that does not lead to a file. -/
structure Stuck (maxLinks : Nat) (fs : FileSystem) (p : List CString) : Prop where
  link : IsLink fs p
  no_file : ¬ LeadsToFile maxLinks fs p

theorem LeadsToFile.mono {fs fs' : FileSystem} {p : List CString} (hle : fs ≤ fs')
    (h : LeadsToFile maxLinks fs p) : LeadsToFile maxLinks fs' p := by
  obtain ⟨content, h⟩ := h
  exact ⟨content, stat_mono hle h⟩

/-- What a run of the program may take away: nothing comes, and what is stuck stays. -/
structure Deletes (maxLinks : Nat) (fs fs' : FileSystem) : Prop where
  le : fs' ≤ fs
  stuck : ∀ p, Stuck maxLinks fs p → IsLink fs' p

theorem Deletes.refl (fs : FileSystem) : Deletes maxLinks fs fs := ⟨le_refl fs, fun _ h => h.link⟩

theorem Deletes.trans {fs fs' fs'' : FileSystem} (h : Deletes maxLinks fs fs') (h' : Deletes maxLinks fs' fs'') :
    Deletes maxLinks fs fs'' := by
  refine ⟨le_trans h'.le h.le, fun p hp => h'.stuck p ⟨h.stuck p hp, ?_⟩⟩
  intro hfile
  exact hp.no_file (hfile.mono h.le)

/-- What is unlinked is seen as a file, so it is not stuck. -/
theorem deletes_unlink {fs fs' : FileSystem} {path : FilePath} {content : List UInt8}
    (hstat : stat maxLinks fs path = some (.file content)) (h : unlink maxLinks fs path = some fs') :
    Deletes maxLinks fs fs' := by
  obtain ⟨q, hq, hresolve, hexists, rfl⟩ := unlink_cases h
  refine ⟨Tree.remove_le hq, ?_⟩
  intro p hp
  have hne : p ≠ q := by
    rintro rfl
    exact hp.no_file ⟨content, stat_pathOf hresolve hexists hstat⟩
  obtain ⟨absolute, target, hlink⟩ := hp.link
  exact ⟨absolute, target, by rw [Tree.remove_entry, if_neg hne, hlink]⟩

/-- What `rmdir` takes is a directory. -/
theorem deletes_rmdir {fs fs' : FileSystem} {path : FilePath} (h : rmdir maxLinks listing fs path = some fs') :
    Deletes maxLinks fs fs' := by
  obtain ⟨q, hq, -, -, hdir, rfl⟩ := rmdir_cases h
  refine ⟨Tree.remove_le hq, ?_⟩
  intro p hp
  obtain ⟨absolute, target, hlink⟩ := hp.link
  have hne : p ≠ q := by
    rintro rfl
    rw [hdir] at hlink
    exact absurd hlink (by simp)
  exact ⟨absolute, target, by rw [Tree.remove_entry, if_neg hne, hlink]⟩

/-- One child. -/
theorem deletes_child {deleteDirectory : FileSystem → FilePath → Except Fault (Bool × FileSystem)}
    (hrec : ∀ fs dir out, deleteDirectory fs dir = .ok out → Deletes maxLinks fs out.2) {dir : FilePath}
    {s s' : Bool × FileSystem} {child : Component CString}
    (h : deleteChild maxLinks deleteDirectory dir s child = .ok s') : Deletes maxLinks s.2 s'.2 := by
  cases child with
  | here =>
      injection h with h
      exact h ▸ Deletes.refl _
  | parent =>
      injection h with h
      exact h ▸ Deletes.refl _
  | name name =>
      unfold deleteChild at h
      dsimp only at h
      split at h
      · injection h with h
        exact h ▸ Deletes.refl _
      · obtain ⟨out, hout, h⟩ := Loops.bind_eq_ok h
        injection h with h
        have hdeletes := hrec _ _ _ hout
        exact h ▸ hdeletes
      · next e hdir hstat =>
          have hfile : ∃ content, e = .file content := by
            cases e with
            | file content => exact ⟨content, rfl⟩
            | dir => exact absurd rfl hdir
            | link absolute target => exact absurd (stat_not_link hstat) (by simp [Entry.isLink])
          obtain ⟨content, rfl⟩ := hfile
          split at h
          · next fs hunlink =>
              injection h with h
              exact h ▸ deletes_unlink hstat hunlink
          · injection h with h
            exact h ▸ Deletes.refl _

/-- **Whatever it is called on, the walk only deletes, and it never gets rid of a stuck link.** -/
theorem delete_deletes (fuel : Nat) (fs : FileSystem) (dir : FilePath) (out : Bool × FileSystem)
    (h : linuxDeleteDirectory maxLinks listing fuel fs dir = .ok out) : Deletes maxLinks fs out.2 := by
  induction fuel generalizing fs dir out with
  | zero => exact absurd h (by simp [linuxDeleteDirectory])
  | succ fuel ih =>
      unfold linuxDeleteDirectory at h
      split at h
      · next dirHandle _ =>
          obtain ⟨s, hloop, h⟩ := Loops.bind_eq_ok h
          have hchildren : Deletes maxLinks fs s.2 :=
            Loops.foldlM_ok_invariant (fun s => Deletes maxLinks fs s.2)
              (fun child _ s s' hs hrun => hs.trans (deletes_child ih hrun)) (Deletes.refl fs) hloop
          injection h with h
          rw [← h]
          cases hrmdir : rmdir maxLinks listing s.2 dir with
          | none => exact hchildren
          | some fs' => exact hchildren.trans (deletes_rmdir hrmdir)
      · injection h with h
        exact h ▸ Deletes.refl _

/-! ## A directory whose links lead to no directory -/

/-- A directory of the tree, and no link below it leads to a directory. -/
structure Tame (maxLinks : Nat) (fs : FileSystem) (d : List CString) : Prop where
  ne_root : d ≠ []
  dir : fs.entry d = some .dir
  links : ∀ p, d <+: p → IsLink fs p → stat maxLinks fs (pathOf p) ≠ some .dir

/-- What the walk of a tame directory leaves: nothing else changes, and if the directory stays, so does a link
    in it that leads to no file when the rest of the directory is gone. -/
structure Emptied (maxLinks : Nat) (fs : FileSystem) (d : List CString) (fs' : FileSystem) : Prop where
  le : fs' ≤ fs
  frame : ∀ p, ¬ d <+: p → fs'.entry p = fs.entry p
  leftover : fs'.entry d ≠ none →
    ∃ p, d <+: p ∧ IsLink fs' p ∧ ¬ LeadsToFile maxLinks (fs.only d p) p

/-- A link that leads nowhere is skipped. -/
theorem emptied_skip {fs : FileSystem} {p : List CString} (hlink : IsLink fs p)
    (hno : ¬ LeadsToFile maxLinks fs p) : Emptied maxLinks fs p fs :=
  ⟨le_refl fs, fun _ _ => rfl, fun _ => ⟨p, List.prefix_refl p, hlink, fun h => hno (h.mono Tree.only_le)⟩⟩

/-- Something that is taken away. -/
theorem emptied_remove {fs : FileSystem} {p : List CString} (h : fs.Childless p) :
    Emptied maxLinks fs p (fs.remove p h) := by
  refine ⟨Tree.remove_le h, ?_, ?_⟩
  · intro q hq
    have hne : q ≠ p := by
      rintro rfl
      exact hq (List.prefix_refl q)
    rw [Tree.remove_entry, if_neg hne]
  · intro hexists
    rw [Tree.remove_entry, if_pos rfl] at hexists
    exact absurd rfl hexists

/-- Two children of one directory above the same place are one. -/
theorem child_unique {d p : List CString} {m n : CString} (hm : d ++ [m] <+: p) (hn : d ++ [n] <+: p) : m = n := by
  have h := List.prefix_of_prefix_length_le hm hn (by simp)
  have heq := h.eq_of_length (by simp)
  simpa using heq

theorem child_not_above (d : List CString) (n : CString) : ¬ d ++ [n] <+: d := by
  intro h
  have hlen := h.length_le
  rw [List.length_append, List.length_singleton] at hlen
  exact absurd hlen (Nat.not_succ_le_self _)

/-- The loop, with the children in `done` behind it: the others are untouched, and of those a link is left
    where anything is. -/
structure Progress (maxLinks : Nat) (fs : FileSystem) (d : List CString) (done : List (Component CString))
    (fs' : FileSystem) : Prop where
  le : fs' ≤ fs
  frame : ∀ p, (∀ n, .name n ∈ done → ¬ (d ++ [n]) <+: p) → fs'.entry p = fs.entry p
  leftover : ∀ n, .name n ∈ done → fs'.entry (d ++ [n]) ≠ none →
    ∃ p, (d ++ [n]) <+: p ∧ IsLink fs' p ∧ ¬ LeadsToFile maxLinks (fs.only d p) p

theorem Progress.start (fs : FileSystem) (d : List CString) : Progress maxLinks fs d [] fs :=
  ⟨le_refl fs, fun _ _ => rfl, fun _ h => absurd h List.not_mem_nil⟩

/-- What leads to a place below an untouched child is still there. -/
theorem Progress.only_le {fs fs' : FileSystem} {d : List CString} {done : List (Component CString)}
    (h : Progress maxLinks fs d done fs') {n : CString} (hn : .name n ∉ done) {p : List CString}
    (hp : d ++ [n] <+: p) : fs.only d p ≤ fs'.only (d ++ [n]) p := by
  intro x e hx
  rw [Tree.only_entry] at hx
  split at hx
  · next hkeep =>
      have hframe : fs'.entry x = fs.entry x := by
        apply h.frame x
        intro m hm hmx
        rcases hkeep with hout | hin
        · exact hout ((List.prefix_append d [m]).trans hmx)
        · exact hn (child_unique (hmx.trans hin) hp ▸ hm)
      rw [Tree.only_entry, if_pos, hframe, hx]
      exact hkeep.imp (fun hout hin => hout ((List.prefix_append d [n]).trans hin)) id
  · exact absurd hx (by simp)

/-- **One round.** -/
theorem Progress.step {fs fs' fs'' : FileSystem} {d : List CString} {done : List (Component CString)}
    (h : Progress maxLinks fs d done fs') {n : CString} (hn : .name n ∉ done)
    (hround : Emptied maxLinks fs' (d ++ [n]) fs'') : Progress maxLinks fs d (done ++ [.name n]) fs'' := by
  refine ⟨le_trans hround.le h.le, ?_, ?_⟩
  · intro p hp
    rw [hround.frame p (hp n (by simp)), h.frame p (fun m hm => hp m (List.mem_append_left _ hm))]
  · intro m hm hexists
    rcases List.mem_append.mp hm with hm | hm
    · -- what was left before is not touched
      have hne : m ≠ n := fun heq => hn (heq ▸ hm)
      have hsame : ∀ p, d ++ [m] <+: p → fs''.entry p = fs'.entry p :=
        fun p hp => hround.frame p (fun hnp => hne (child_unique hp hnp))
      rw [hsame _ (List.prefix_refl _)] at hexists
      obtain ⟨p, hp, ⟨absolute, target, hlink⟩, hno⟩ := h.leftover m hm hexists
      exact ⟨p, hp, ⟨absolute, target, by rw [hsame p hp, hlink]⟩, hno⟩
    · have heq : m = n := by simpa using hm
      subst heq
      obtain ⟨p, hp, hlink, hno⟩ := hround.leftover hexists
      exact ⟨p, hp, hlink, fun hfile => hno (hfile.mono (h.only_le hn hp))⟩

/-- A name that is no entry of a directory changes nothing. -/
theorem Progress.skip {fs fs' : FileSystem} {d : List CString} {done : List (Component CString)}
    (h : Progress maxLinks fs d done fs') {c : Component CString} (hc : ∀ n, c ≠ .name n) :
    Progress maxLinks fs d (done ++ [c]) fs' := by
  have hmem : ∀ n, .name n ∈ done ++ [c] → .name n ∈ done := by
    intro n hn
    rcases List.mem_append.mp hn with hn | hn
    · exact hn
    · exact absurd (List.mem_singleton.mp hn).symm (hc n)
  exact ⟨h.le, fun p hp => h.frame p (fun n hn => hp n (List.mem_append_left _ hn)),
    fun n hn => h.leftover n (hmem n hn)⟩

/-- A child that is a directory. -/
theorem deleteChild_dir {deleteDirectory : FileSystem → FilePath → Except Fault (Bool × FileSystem)}
    {s out : Bool × FileSystem} {d : List CString} {n : CString} (hdir : s.2.entry (d ++ [n]) = some .dir)
    (hrun : deleteDirectory s.2 (pathOf (d ++ [n])) = .ok out) :
    deleteChild maxLinks deleteDirectory (pathOf d) s (.name n) = .ok (s.1 && out.1, out.2) := by
  have hpath : pathOf d ++ [.name n] = pathOf (d ++ [n]) := (pathOf_append d [n]).symm
  unfold deleteChild
  dsimp only
  rw [hpath, stat_place hdir rfl]
  dsimp only
  rw [hrun]
  rfl

/-- One child of a tame directory, given the walk of the directories among them. -/
theorem emptied_child {deleteDirectory : FileSystem → FilePath → Except Fault (Bool × FileSystem)}
    {s : Bool × FileSystem} {d : List CString} {n : CString} (hexists : s.2.entry (d ++ [n]) ≠ none)
    (hlinks : IsLink s.2 (d ++ [n]) → stat maxLinks s.2 (pathOf (d ++ [n])) ≠ some .dir)
    (hrec : s.2.entry (d ++ [n]) = some .dir → ∃ out, deleteDirectory s.2 (pathOf (d ++ [n])) = .ok out ∧
      Emptied maxLinks s.2 (d ++ [n]) out.2) :
    ∃ s', deleteChild maxLinks deleteDirectory (pathOf d) s (.name n) = .ok s' ∧
      Emptied maxLinks s.2 (d ++ [n]) s'.2 := by
  have hpath : pathOf d ++ [.name n] = pathOf (d ++ [n]) := (pathOf_append d [n]).symm
  obtain ⟨e, he⟩ := Option.ne_none_iff_exists'.mp hexists
  have hleaf : e ≠ .dir → s.2.Childless (d ++ [n]) :=
    fun hne => Tree.childless_of_ne_dir (by rw [he]; simpa using hne)
  cases e with
  | dir =>
      obtain ⟨out, hout, hemptied⟩ := hrec he
      exact ⟨_, deleteChild_dir he hout, hemptied⟩
  | file content =>
      unfold deleteChild
      dsimp only
      rw [hpath, stat_place he rfl, unlink_place he (by simp)]
      exact ⟨(s.1, s.2.remove _ (hleaf (by simp))), rfl, emptied_remove (hleaf (by simp))⟩
  | link absolute target =>
      have hlink : IsLink s.2 (d ++ [n]) := ⟨absolute, target, he⟩
      unfold deleteChild
      dsimp only
      rw [hpath]
      cases hstat : stat maxLinks s.2 (pathOf (d ++ [n])) with
      | none =>
          refine ⟨_, rfl, emptied_skip hlink ?_⟩
          rintro ⟨content, hfile⟩
          rw [hstat] at hfile
          exact absurd hfile (by simp)
      | some e =>
          cases e with
          | dir => exact absurd hstat (hlinks hlink)
          | link absolute' target' => exact absurd (stat_not_link hstat) (by simp [Entry.isLink])
          | file content =>
              rw [unlink_place he (by simp)]
              exact ⟨(s.1, s.2.remove _ (hleaf (by simp))), rfl, emptied_remove (hleaf (by simp))⟩

/-- A link of a smaller tree leads to no directory if it does not in the larger one. -/
theorem Tame.links_of_le {fs fs' : FileSystem} {d p : List CString} (h : Tame maxLinks fs d) (hle : fs' ≤ fs)
    (hp : d <+: p) (hlink : IsLink fs' p) : stat maxLinks fs' (pathOf p) ≠ some .dir := by
  obtain ⟨absolute, target, hlink⟩ := hlink
  intro hdir
  exact h.links p hp ⟨absolute, target, hle p _ hlink⟩ (stat_mono hle hdir)

/-- The directories below a tame one are tame, also once something is gone. -/
theorem Tame.child {fs fs' : FileSystem} {d : List CString} (h : Tame maxLinks fs d) (hle : fs' ≤ fs) {n : CString}
    (hdir : fs'.entry (d ++ [n]) = some .dir) : Tame maxLinks fs' (d ++ [n]) :=
  ⟨by simp, hdir, fun _ hp hlink => h.links_of_le hle ((List.prefix_append d [n]).trans hp) hlink⟩

/-- Nothing of the tree is that deep below the directory. -/
def Shallow (fs : FileSystem) (d : List CString) (fuel : Nat) : Prop :=
  ∀ r, fs.entry (d ++ r) ≠ none → r.length < fuel

/-- All places of a tree are less deep than some bound. -/
theorem exists_depth (fs : FileSystem) : ∃ bound, ∀ p, fs.entry p ≠ none → p.length < bound := by
  obtain ⟨bound, hbound⟩ := (fs.finite.image List.length).bddAbove
  exact ⟨bound + 1, fun p hp => Nat.lt_succ_of_le (hbound ⟨p, hp, rfl⟩)⟩

theorem shallow_of_depth {fs : FileSystem} {fuel : Nat} (h : ∀ p, fs.entry p ≠ none → p.length < fuel)
    (d : List CString) : Shallow fs d fuel := by
  intro r hr
  have := h (d ++ r) hr
  rw [List.length_append] at this
  omega

theorem Shallow.child {fs fs' : FileSystem} {d : List CString} {fuel : Nat} (h : Shallow fs d (fuel + 1))
    (hle : fs' ≤ fs) (n : CString) : Shallow fs' (d ++ [n]) fuel := by
  intro r hr
  rw [List.append_assoc] at hr
  have := h ([n] ++ r) (Tree.ne_none_of_le hle hr)
  simpa using this

variable (listing)

/-- **The rounds over some children of a tame directory.** -/
theorem progress_children {fs : FileSystem} {d : List CString} {fuel : Nat} (htame : Tame maxLinks fs d)
    (hfuel : Shallow fs d (fuel + 1))
    (hrec : ∀ fs d, Tame maxLinks fs d → Shallow fs d fuel → ∃ out,
      linuxDeleteDirectory maxLinks listing fuel fs (pathOf d) = .ok out ∧ Emptied maxLinks fs d out.2)
    {children : List (Component CString)} (hnodup : children.Nodup)
    (hmem : ∀ n, .name n ∈ children → fs.entry (d ++ [n]) ≠ none) :
    ∃ s, children.foldlM (deleteChild maxLinks (linuxDeleteDirectory maxLinks listing fuel) (pathOf d)) (true, fs)
      = .ok s ∧ Progress maxLinks fs d children s.2 := by
  refine Loops.foldlM_prefix_invariant (fun done (s : Bool × FileSystem) => Progress maxLinks fs d done s.2)
    (Progress.start fs d) ?_
  intro done c rest hsplit s hs
  cases c with
  | here => exact ⟨s, rfl, hs.skip (fun n => by simp)⟩
  | parent => exact ⟨s, rfl, hs.skip (fun n => by simp)⟩
  | name n =>
      have hn : .name n ∉ done := by
        rw [hsplit] at hnodup
        exact fun hin => (List.nodup_append.mp hnodup).2.2 _ hin _ List.mem_cons_self rfl
      have hsame : s.2.entry (d ++ [n]) = fs.entry (d ++ [n]) :=
        hs.frame _ (fun m hm hp => hn (child_unique hp (List.prefix_refl _) ▸ hm))
      have hexists : s.2.entry (d ++ [n]) ≠ none := by
        rw [hsame]
        exact hmem n (by rw [hsplit]; simp)
      obtain ⟨s', hrun, hemptied⟩ := emptied_child hexists
        (fun hlink => htame.links_of_le hs.le (List.prefix_append d [n]) hlink)
        (fun hdir => hrec s.2 (d ++ [n]) (htame.child hs.le hdir) (hfuel.child hs.le n))
      exact ⟨s', hrun, hs.step hn hemptied⟩

/-- What is left when all children are done and `rmdir` has tried. -/
theorem emptied_rmdir {fs fs' : FileSystem} {d : List CString} (htame : Tame maxLinks fs d)
    (h : Progress maxLinks fs d (listing.children fs d) fs') :
    Emptied maxLinks fs d ((rmdir maxLinks listing fs' (pathOf d)).getD fs') := by
  have hdir : fs'.entry d = some .dir := by
    rw [h.frame d (fun n _ => child_not_above d n), htame.dir]
  have hframe : ∀ p, ¬ d <+: p → fs'.entry p = fs.entry p :=
    fun p hp => h.frame p (fun n _ hn => hp ((List.prefix_append d [n]).trans hn))
  by_cases hleaf : fs'.Childless d
  · rw [rmdir_place listing hdir hleaf]
    have hremoved : Emptied maxLinks fs' d (fs'.remove d hleaf) := emptied_remove hleaf
    exact ⟨le_trans hremoved.le h.le, fun p hp => (hremoved.frame p hp).trans (hframe p hp),
      fun hexists => absurd (by simp) hexists⟩
  · rw [rmdir_eq_none listing hleaf (by rw [hdir]; simp)]
    refine ⟨h.le, hframe, ?_⟩
    intro _
    -- a child that is left
    obtain ⟨n, hn⟩ : ∃ n, fs'.entry (d ++ [n]) ≠ none := by
      by_contra hcon
      push Not at hcon
      exact hleaf ⟨htame.ne_root, hcon⟩
    obtain ⟨p, hp, hlink, hno⟩ := h.leftover n ((listing.mem_iff fs d n).mpr (Tree.ne_none_of_le h.le hn)) hn
    exact ⟨p, (List.prefix_append d [n]).trans hp, hlink, hno⟩

/-- `rmdir` takes a directory only when its children are gone. -/
theorem children_gone {fs : FileSystem} {d : List CString} (hdir : fs.entry d = some .dir)
    (h : ((rmdir maxLinks listing fs (pathOf d)).getD fs).entry d = none) (n : CString) :
    fs.entry (d ++ [n]) = none := by
  by_cases hleaf : fs.Childless d
  · exact hleaf.leaf n
  · rw [rmdir_eq_none listing hleaf (by rw [hdir]; simp)] at h
    rw [Option.getD_none, hdir] at h
    exact absurd h (by simp)

/-- The run on a tame directory, from its loop. -/
theorem delete_of_loop {fuel : Nat} {fs : FileSystem} {d : List CString} (htame : Tame maxLinks fs d)
    {s : Bool × FileSystem}
    (hloop : (listing.children fs d).foldlM
      (deleteChild maxLinks (linuxDeleteDirectory maxLinks listing fuel) (pathOf d)) (true, fs) = .ok s) :
    linuxDeleteDirectory maxLinks listing (fuel + 1) fs (pathOf d)
      = .ok (s.1, (rmdir maxLinks listing s.2 (pathOf d)).getD s.2) := by
  rw [linuxDeleteDirectory, opendir_place htame.dir]
  dsimp only
  rw [hloop]
  rfl

/-- **`linux_delete_directory` on a tame directory** ends, and empties it but for links. -/
theorem delete_tame (fuel : Nat) (fs : FileSystem) (d : List CString) (htame : Tame maxLinks fs d)
    (hfuel : Shallow fs d fuel) :
    ∃ out, linuxDeleteDirectory maxLinks listing fuel fs (pathOf d) = .ok out ∧ Emptied maxLinks fs d out.2 := by
  induction fuel generalizing fs d with
  | zero => exact absurd (hfuel [] (by rw [List.append_nil, htame.dir]; simp)) (Nat.not_lt_zero _)
  | succ fuel ih =>
      obtain ⟨s, hloop, hs⟩ := progress_children listing htame hfuel ih (listing.nodup fs d)
        (fun n hn => (listing.mem_iff fs d n).mp hn)
      exact ⟨_, delete_of_loop listing htame hloop, emptied_rmdir listing htame hs⟩

/-! ## A link whose turn comes last -/

/-- Nothing is below a link. -/
theorem le_only_self {fs : FileSystem} {p : List CString} (h : IsLink fs p) : fs ≤ fs.only p p := by
  obtain ⟨absolute, target, hlink⟩ := h
  intro x e hx
  rw [Tree.only_entry, if_pos, hx]
  by_cases hp : p <+: x
  · rw [← Tree.eq_of_below hp (by rw [hx]; simp) (by rw [hlink]; simp)]
    exact Or.inr (List.prefix_refl p)
  · exact Or.inl hp

/-- What is left of a directory whose other children are gone is the way to the last one. -/
theorem Progress.le_only {fs fs' : FileSystem} {d : List CString} {others : List (Component CString)} {n : CString}
    (h : Progress maxLinks fs d others fs') (hall : ∀ m, fs.entry (d ++ [m]) ≠ none → m = n ∨ .name m ∈ others)
    (hgone : ∀ m, .name m ∈ others → fs'.entry (d ++ [m]) = none) {p : List CString} (hp : d ++ [n] <+: p) :
    fs'.only (d ++ [n]) p ≤ fs.only d p := by
  intro x e hx
  rw [Tree.only_entry] at hx
  split at hx
  · next hkeep =>
      rw [Tree.only_entry, if_pos, h.le x e hx]
      by_contra hcon
      push Not at hcon
      obtain ⟨hin, hoff⟩ := hcon
      -- below a child other than `n` there is nothing left
      obtain ⟨r, rfl⟩ := hin
      cases r with
      | nil => exact hoff (by rw [List.append_nil]; exact (List.prefix_append d [n]).trans hp)
      | cons m r =>
          have hm : d ++ [m] <+: d ++ m :: r := ⟨r, by simp⟩
          have hexists : fs'.entry (d ++ [m]) ≠ none := Tree.ne_none_above hm (by rw [hx]; simp)
          rcases hall m (Tree.ne_none_of_le h.le hexists) with rfl | hother
          · rcases hkeep with hout | hin
            · exact hout hm
            · exact hoff hin
          · exact hexists (hgone m hother)
  · exact absurd hx (by simp)

/-- **The last round** of a walk that gets rid of the directory: the other children are gone by then, and it
    takes the last one. -/
theorem last_round {fuel : Nat} {fs : FileSystem} {d : List CString} (htame : Tame maxLinks fs d)
    (hfuel : Shallow fs d (fuel + 1)) {others : List (Component CString)} {n : CString}
    (hchildren : listing.children fs d = others ++ [.name n]) {out : Bool × FileSystem}
    (hrun : linuxDeleteDirectory maxLinks listing (fuel + 1) fs (pathOf d) = .ok out)
    (hgone : out.2.entry d = none) :
    ∃ s s' : Bool × FileSystem, s.2 ≤ fs ∧ (∀ p, d ++ [n] <+: p → s.2.entry p = fs.entry p) ∧
      (∀ p, d ++ [n] <+: p → s.2.only (d ++ [n]) p ≤ fs.only d p) ∧
      deleteChild maxLinks (linuxDeleteDirectory maxLinks listing fuel) (pathOf d) s (.name n) = .ok s' ∧
      s'.2.entry (d ++ [n]) = none := by
  have hmem : ∀ m, .name m ∈ others ++ [.name n] → fs.entry (d ++ [m]) ≠ none :=
    fun m hm => (listing.mem_iff fs d m).mp (by rw [hchildren]; exact hm)
  have hnodup := listing.nodup fs d
  rw [hchildren] at hnodup
  have hn : .name n ∉ others :=
    fun hin => (List.nodup_append.mp hnodup).2.2 _ hin _ List.mem_cons_self rfl
  -- the rounds before
  obtain ⟨s, hloop, hs⟩ := progress_children listing htame hfuel (delete_tame listing fuel)
    (List.nodup_append.mp hnodup).1 (fun m hm => hmem m (List.mem_append_left _ hm))
  have hsame : ∀ p, d ++ [n] <+: p → s.2.entry p = fs.entry p :=
    fun p hp => hs.frame p (fun m hm hmp => hn (child_unique hmp hp ▸ hm))
  have hexists : s.2.entry (d ++ [n]) ≠ none := by
    rw [hsame _ (List.prefix_refl _)]
    exact hmem n (by simp)
  -- the last one
  obtain ⟨s', hround, hemptied⟩ := emptied_child hexists
    (fun h => htame.links_of_le hs.le (List.prefix_append d [n]) h)
    (fun hdir => delete_tame listing fuel s.2 (d ++ [n]) (htame.child hs.le hdir) (hfuel.child hs.le n))
  have hloop' := Loops.foldlM_concat_ok hloop hround
  rw [← hchildren] at hloop'
  rw [delete_of_loop listing htame hloop'] at hrun
  injection hrun with hrun
  rw [← hrun] at hgone
  have hdir : s'.2.entry d = some .dir := by
    rw [hemptied.frame d (child_not_above d n), hs.frame d (fun m _ => child_not_above d m), htame.dir]
  have hall := children_gone listing hdir hgone
  refine ⟨s, s', hs.le, hsame, fun p hp => hs.le_only ?_ ?_ hp, hround, hall n⟩
  · intro m hm
    have hin := (listing.mem_iff fs d m).mpr hm
    rw [hchildren] at hin
    exact (List.mem_append.mp hin).elim Or.inr (fun h => Or.inl (by simpa using h))
  · intro m hm
    have hne : m ≠ n := fun heq => hn (heq ▸ hm)
    rw [← hemptied.frame (d ++ [m]) (fun hp => hne (child_unique (List.prefix_refl _) hp))]
    exact hall m

/-- **A tame directory is emptied of a link that comes last only if the link leads to a file when nothing else
    of the directory is left.** -/
theorem delete_last (fuel : Nat) (fs : FileSystem) (d r : List CString) (hr : r ≠ [])
    (hlast : listing.Last (d ++ r)) (htame : Tame maxLinks fs d) (hfuel : Shallow fs d fuel)
    (hlink : IsLink fs (d ++ r)) (out : Bool × FileSystem)
    (hrun : linuxDeleteDirectory maxLinks listing fuel fs (pathOf d) = .ok out) (hgone : out.2.entry d = none) :
    LeadsToFile maxLinks (fs.only d (d ++ r)) (d ++ r) := by
  induction fuel generalizing fs d r out with
  | zero => exact absurd (hfuel [] (by rw [List.append_nil, htame.dir]; simp)) (Nat.not_lt_zero _)
  | succ fuel ih =>
      cases r with
      | nil => exact absurd rfl hr
      | cons n r =>
          have hsplit : d ++ n :: r = d ++ [n] ++ r := by simp
          rw [hsplit] at hlast hlink ⊢
          have hchild : d ++ [n] <+: d ++ [n] ++ r := List.prefix_append _ r
          obtain ⟨absolute, target, hentry⟩ := hlink
          have hexists : fs.entry (d ++ [n]) ≠ none := Tree.ne_none_above hchild (by rw [hentry]; simp)
          obtain ⟨others, hothers⟩ := hlast fs d n r hsplit.symm hexists
          obtain ⟨s, s', hle, hsame, honly, hround, htaken⟩ := last_round listing htame hfuel hothers hrun hgone
          have hlink' : IsLink s.2 (d ++ [n] ++ r) := ⟨absolute, target, by rw [hsame _ hchild, hentry]⟩
          refine LeadsToFile.mono (honly _ hchild) ?_
          by_cases hr' : r = []
          · -- the link itself
            subst hr'
            rw [List.append_nil] at hlink' ⊢
            by_contra hno
            have hstuck : Stuck maxLinks s.2 (d ++ [n]) :=
              ⟨hlink', fun hfile => hno (hfile.mono (le_only_self hlink'))⟩
            have hdeletes : Deletes maxLinks s.2 s'.2 := deletes_child (delete_deletes fuel) hround
            obtain ⟨absolute', target', hleft⟩ := hdeletes.stuck _ hstuck
            rw [htaken] at hleft
            exact absurd hleft (by simp)
          · -- the directory on the way to it
            have hdir : s.2.entry (d ++ [n]) = some .dir := by
              rw [hsame _ (List.prefix_refl _)]
              exact Tree.dir_of_append hr' (by rw [hentry]; simp)
            have htame' := htame.child hle hdir
            have hfuel' := hfuel.child hle n
            obtain ⟨out', hrun', -⟩ := delete_tame listing fuel s.2 (d ++ [n]) htame' hfuel'
            rw [deleteChild_dir hdir hrun'] at hround
            injection hround with hround
            rw [← hround] at htaken
            exact ih s.2 (d ++ [n]) r hr' hlast htame' hfuel' hlink' out' hrun' htaken

end Delete

end Hand2
