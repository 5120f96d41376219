import Hand2.Checkout.Replace

/-!
# `Checkout.Subtree` — when `linux_delete_directory` removes exactly the subtree it is given

A directory may be given by any path that leads to it: through links, by `.` and `..`, or as a link itself.
The calls of the walk all start with that path, so it must lead to the directory as long as the walk needs it,
and the links it passes count against those a child may pass (`SameWay`). Whatever the path, a walk of a
directory with no link to a directory in it stays below the directory (`delete_within`).
-/

namespace Hand2

open FileTree

section Subtree

variable {maxLinks : Nat} {listing : Listing CString (List UInt8)}

/-! ## What is asked -/

/-- Nothing exists at or below `dir`, which was the place `d`, and the files and directories elsewhere are
    unchanged. -/
structure SubtreeRemoved (maxLinks : Nat) (fs fs' : FileSystem) (dir : FilePath) (d : List CString) : Prop where
  gone : lstat maxLinks fs' dir = none
  below : ∀ r, fs'.entry (d ++ r) = none
  frame : ∀ p, ¬ d <+: p → ¬ IsLink fs p → fs'.entry p = fs.entry p

/-- In whatever order directories list their entries, the walk ends, with the subtree removed. -/
def AlwaysRemoved (maxLinks : Nat) (fs : FileSystem) (dir : FilePath) (d : List CString) : Prop :=
  ∀ listing, ∃ fuel₀, ∀ fuel ≥ fuel₀, ∃ out, linuxDeleteDirectory maxLinks listing fuel fs dir = .ok out ∧
    SubtreeRemoved maxLinks fs out.2 dir d

/-- **What can be removed**: a directory given by its own name, by a way that does not pass through it, whose
    links are all seen as files when nothing else of it is left. -/
structure Removable (maxLinks : Nat) (fs : FileSystem) (dir : FilePath) (d : List CString) : Prop where
  ne_root : d ≠ []
  named : endsInName dir = true
  way : resolve (fs.only d d) false maxLinks [] dir = some d
  links : ∀ r, IsLink fs (d ++ r) →
    ∃ content, stat maxLinks (fs.only d (d ++ r)) (dir ++ pathOf r) = some (.file content)

/-! ## A walk stays below its directory -/

/-- Something at or below `p` may have been taken away, and nothing else has changed. -/
structure Within (p : List CString) (fs fs' : FileSystem) : Prop where
  le : fs' ≤ fs
  frame : ∀ x, ¬ p <+: x → fs'.entry x = fs.entry x

theorem Within.refl (p : List CString) (fs : FileSystem) : Within p fs fs := ⟨le_refl fs, fun _ _ => rfl⟩

theorem Within.trans {p : List CString} {fs fs' fs'' : FileSystem} (h : Within p fs fs') (h' : Within p fs' fs'') :
    Within p fs fs'' :=
  ⟨le_trans h'.le h.le, fun x hx => (h'.frame x hx).trans (h.frame x hx)⟩

theorem Within.mono {p q : List CString} {fs fs' : FileSystem} (h : Within q fs fs') (hpq : p <+: q) :
    Within p fs fs' :=
  ⟨h.le, fun x hx => h.frame x (fun hq => hx (hpq.trans hq))⟩

theorem within_remove {fs : FileSystem} {p : List CString} (h : fs.Childless p) : Within p fs (fs.remove p h) := by
  refine ⟨Tree.remove_le h, ?_⟩
  intro x hx
  have hne : x ≠ p := by
    rintro rfl
    exact hx (List.prefix_refl x)
  rw [Tree.remove_entry, if_neg hne]

/-- The path `dir` leads to the directory `d`, and no link in it leads to a directory. -/
structure Enclosed (maxLinks : Nat) (fs : FileSystem) (dir : FilePath) (d : List CString) : Prop where
  names : resolve fs true maxLinks [] dir = some d
  dir : fs.entry d = some .dir
  links : ∀ p, d <+: p → IsLink fs p → stat maxLinks fs (pathOf p) ≠ some .dir

/-- What a path through the directory leads to without following a link at its end, also when something is
    gone. -/
theorem Enclosed.resolve_below {fs fs' : FileSystem} {dir : FilePath} {d : List CString}
    (h : Enclosed maxLinks fs dir d) (hle : fs' ≤ fs) {r x : List CString} {n : CString}
    (hup : fs.entry (d ++ r) = some .dir) (hx : resolve fs' false maxLinks [] (dir ++ pathOf (r ++ [n])) = some x)
    (hexists : fs'.entry x ≠ none) : x = d ++ (r ++ [n]) := by
  obtain ⟨b, -, hsame⟩ := resolve_append h.names h.dir
  have hfs := resolve_mono hle hx hexists
  rw [hsame fs (le_refl fs) false _ (by simp [pathOf]), ← resolve_dirs false b _ h.dir, ← pathOf_append] at hfs
  rw [← List.append_assoc] at hfs ⊢
  cases hn : fs.entry (d ++ r ++ [n]) with
  | none =>
      rw [resolve_free b hup hn] at hfs
      injection hfs with hfs
      exact hfs.symm
  | some e =>
      rw [resolve_place b (by rw [hn]; simp)] at hfs
      injection hfs with hfs
      exact hfs.symm

/-- What is seen as a directory in the directory is one. -/
theorem Enclosed.dir_below {fs fs' : FileSystem} {dir : FilePath} {d : List CString}
    (h : Enclosed maxLinks fs dir d) (hle : fs' ≤ fs) {r : List CString} {n : CString}
    (hup : fs.entry (d ++ r) = some .dir)
    (hstat : stat maxLinks fs' (dir ++ pathOf (r ++ [n])) = some .dir) : fs.entry (d ++ (r ++ [n])) = some .dir := by
  obtain ⟨b, hb, hsame⟩ := resolve_append h.names h.dir
  obtain ⟨x, hx, hxdir⟩ := Option.bind_eq_some_iff.mp hstat
  have hfs := resolve_mono hle hx (by rw [hxdir]; simp)
  rw [hsame fs (le_refl fs) true _ (by simp [pathOf]), ← resolve_dirs true b _ h.dir, ← pathOf_append] at hfs
  have hfsdir := hle x _ hxdir
  -- seen with all links allowed
  have hseen : stat maxLinks fs (pathOf (d ++ (r ++ [n]))) = some .dir := by
    unfold stat
    rw [resolve_allowance hb hfs]
    exact hfsdir
  cases hn : fs.entry (d ++ (r ++ [n])) with
  | none =>
      rw [← List.append_assoc] at hfs hn
      rw [resolve_free b hup hn] at hfs
      injection hfs with hfs
      rw [← hfs, hn] at hfsdir
      exact absurd hfsdir (by simp)
  | some e =>
      cases e with
      | dir => rfl
      | file content =>
          rw [stat_place hn rfl] at hseen
          exact absurd hseen (by simp)
      | link absolute target => exact absurd hseen (h.links _ (List.prefix_append d _) ⟨absolute, target, hn⟩)

/-- One child. -/
theorem within_child {fs : FileSystem} {dir : FilePath} {d : List CString} (h : Enclosed maxLinks fs dir d)
    {deleteDirectory : FileSystem → FilePath → Except Fault (Bool × FileSystem)}
    (hrec : ∀ fs' r out, fs' ≤ fs → fs.entry (d ++ r) = some .dir →
      deleteDirectory fs' (dir ++ pathOf r) = .ok out → Within (d ++ r) fs' out.2)
    {r : List CString} {n : CString} (hup : fs.entry (d ++ r) = some .dir) {s s' : Bool × FileSystem} (hs : s.2 ≤ fs)
    (hrun : deleteChild maxLinks deleteDirectory (dir ++ pathOf r) s (.name n) = .ok s') :
    Within (d ++ (r ++ [n])) s.2 s'.2 := by
  have hpath : dir ++ pathOf r ++ [.name n] = dir ++ pathOf (r ++ [n]) := by
    rw [pathOf_append, List.append_assoc]
    rfl
  unfold deleteChild at hrun
  dsimp only at hrun
  rw [hpath] at hrun
  split at hrun
  · injection hrun with hrun
    exact hrun ▸ Within.refl _ _
  · next hstat =>
      obtain ⟨out, hout, hrun⟩ := Loops.bind_eq_ok hrun
      injection hrun with hrun
      have hwithin := hrec s.2 (r ++ [n]) out hs (h.dir_below hs hup hstat) hout
      exact hrun ▸ hwithin
  · split at hrun
    · next fs' hunlink =>
        obtain ⟨x, hx, hresolve, hexists, rfl⟩ := unlink_cases hunlink
        injection hrun with hrun
        have hplace := h.resolve_below hs hup hresolve hexists
        subst hplace
        exact hrun ▸ within_remove hx
    · injection hrun with hrun
      exact hrun ▸ Within.refl _ _

/-- The loop over the children. -/
theorem within_children {fs : FileSystem} {dir : FilePath} {d : List CString} (h : Enclosed maxLinks fs dir d)
    {deleteDirectory : FileSystem → FilePath → Except Fault (Bool × FileSystem)}
    (hrec : ∀ fs' r out, fs' ≤ fs → fs.entry (d ++ r) = some .dir →
      deleteDirectory fs' (dir ++ pathOf r) = .ok out → Within (d ++ r) fs' out.2)
    {r : List CString} (hup : fs.entry (d ++ r) = some .dir) {children : List (Component CString)}
    {s s' : Bool × FileSystem} (hs : s.2 ≤ fs)
    (hrun : children.foldlM (deleteChild maxLinks deleteDirectory (dir ++ pathOf r)) s = .ok s') :
    s'.2 ≤ s.2 ∧ ∀ x, (∀ n, ¬ d ++ (r ++ [n]) <+: x) → s'.2.entry x = s.2.entry x := by
  apply Loops.foldlM_ok_invariant
    (fun a => a.2 ≤ s.2 ∧ ∀ x, (∀ n, ¬ d ++ (r ++ [n]) <+: x) → a.2.entry x = s.2.entry x) ?_
    ⟨le_refl _, fun _ _ => rfl⟩ hrun
  rintro c _ a a' ⟨hle, hframe⟩ hround
  cases c with
  | here =>
      injection hround with hround
      exact hround ▸ ⟨hle, hframe⟩
  | parent =>
      injection hround with hround
      exact hround ▸ ⟨hle, hframe⟩
  | name n =>
      have hwithin := within_child h hrec hup (le_trans hle hs) hround
      exact ⟨le_trans hwithin.le hle, fun x hx => (hwithin.frame x (hx n)).trans (hframe x hx)⟩

/-- Where `rmdir` takes something away, it is the directory of the walk. -/
theorem Enclosed.rmdir_place {fs fs' fs'' : FileSystem} {dir : FilePath} {d : List CString}
    (h : Enclosed maxLinks fs dir d) (hle : fs' ≤ fs) {r : List CString} (hup : fs.entry (d ++ r) = some .dir)
    (hrmdir : rmdir maxLinks listing fs' (dir ++ pathOf r) = some fs'') :
    ∃ hleaf : fs'.Childless (d ++ r), endsInName (dir ++ pathOf r) = true ∧
      resolve fs' false maxLinks [] (dir ++ pathOf r) = some (d ++ r) ∧ fs'' = fs'.remove (d ++ r) hleaf := by
  obtain ⟨x, hleaf, hname, hresolve, hdir, rfl⟩ := rmdir_cases hrmdir
  have hplace : x = d ++ r := by
    cases r using List.reverseRecOn with
    | nil =>
        have hpath : dir ++ pathOf ([] : List CString) = dir := List.append_nil dir
        rw [hpath] at hresolve
        have hfs := resolve_mono hle hresolve (by rw [hdir]; simp)
        have hfsdir := hle x _ hdir
        have hfollow := resolve_follow fs.root hfs (by rw [hfsdir]; simp)
        rw [h.names] at hfollow
        injection hfollow with hfollow
        rw [← hfollow, List.append_nil]
    | append_singleton r n =>
        apply h.resolve_below hle _ hresolve (by rw [hdir]; simp)
        rw [← List.append_assoc] at hup
        exact fs.closed _ n (by rw [hup]; simp)
  subst hplace
  exact ⟨hleaf, hname, hresolve, rfl⟩

/-- **A walk stays below its directory.** -/
theorem delete_within {fs : FileSystem} {dir : FilePath} {d : List CString} (h : Enclosed maxLinks fs dir d)
    (fuel : Nat) (fs' : FileSystem) (r : List CString) (out : Bool × FileSystem) (hle : fs' ≤ fs)
    (hup : fs.entry (d ++ r) = some .dir)
    (hrun : linuxDeleteDirectory maxLinks listing fuel fs' (dir ++ pathOf r) = .ok out) :
    Within (d ++ r) fs' out.2 := by
  induction fuel generalizing fs' r out with
  | zero => exact absurd hrun (by simp [linuxDeleteDirectory])
  | succ fuel ih =>
      unfold linuxDeleteDirectory at hrun
      split at hrun
      · next dirHandle _ =>
          obtain ⟨s, hloop, hrun⟩ := Loops.bind_eq_ok hrun
          obtain ⟨hsle, hsframe⟩ := within_children h ih hup hle hloop
          have hs : Within (d ++ r) fs' s.2 := by
            refine ⟨hsle, ?_⟩
            intro x hx
            apply hsframe x
            intro n hn
            rw [← List.append_assoc] at hn
            exact hx ((List.prefix_append (d ++ r) [n]).trans hn)
          injection hrun with hrun
          rw [← hrun]
          cases hrmdir : rmdir maxLinks listing s.2 (dir ++ pathOf r) with
          | none => exact hs
          | some fs'' =>
              obtain ⟨hleaf, -, -, rfl⟩ := h.rmdir_place (le_trans hsle hle) hup hrmdir
              exact hs.trans (within_remove hleaf)
      · injection hrun with hrun
        exact hrun ▸ Within.refl _ _

/-! ## The same walk from the root -/

/-- In every tree that still holds the directory, a path through `dir` leads where the path through its place
    leads with `b` links allowed. -/
def SameWay (maxLinks b : Nat) (fs : FileSystem) (dir : FilePath) (d : List CString) : Prop :=
  ∀ fs', fs.only d d ≤ fs' → ∀ follow r,
    resolve fs' follow maxLinks [] (dir ++ pathOf r) = resolve fs' follow b [] (pathOf (d ++ r))

/-- A way to the directory that does not pass through it. -/
theorem sameWay_of_way {fs : FileSystem} {dir : FilePath} {d : List CString} (hdir : fs.entry d = some .dir)
    (hway : resolve (fs.only d d) false maxLinks [] dir = some d) : ∃ b ≤ maxLinks, SameWay maxLinks b fs dir d := by
  have honly : (fs.only d d).entry d = some .dir := by
    rw [Tree.only_entry, if_pos (Or.inr (List.prefix_refl d)), hdir]
  have hfollow := resolve_follow (fs.only d d).root hway (by simp [honly])
  obtain ⟨b, hb, hsame⟩ := resolve_append hfollow honly
  refine ⟨b, hb, ?_⟩
  intro fs' hle follow r
  have hdir' := hle d _ honly
  by_cases hr : r = []
  · subst hr
    rw [List.append_nil, show dir ++ pathOf ([] : List CString) = dir from List.append_nil dir]
    cases follow with
    | false =>
        rw [resolve_mono hle hway (by rw [honly]; simp), resolve_place b (by rw [hdir']; simp)]
    | true =>
        rw [resolve_mono hle hfollow (by rw [honly]; simp), resolve_place_follow b hdir' rfl]
  · rw [hsame fs' hle follow _ (by simpa [pathOf] using hr), ← resolve_dirs follow b _ hdir', ← pathOf_append]

section Same

variable {b : Nat} {fs : FileSystem} {dir : FilePath} {d : List CString}

/-- The calls of the walk do not see a difference. -/
theorem SameWay.stat (h : SameWay maxLinks b fs dir d) {fs' : FileSystem} (hle : fs.only d d ≤ fs')
    (r : List CString) :
    FileTree.stat maxLinks fs' (dir ++ pathOf r) = FileTree.stat b fs' (pathOf (d ++ r)) := by
  unfold FileTree.stat
  rw [h fs' hle true r]

theorem SameWay.opendir (h : SameWay maxLinks b fs dir d) {fs' : FileSystem} (hle : fs.only d d ≤ fs')
    (r : List CString) :
    FileTree.opendir maxLinks fs' (dir ++ pathOf r) = FileTree.opendir b fs' (pathOf (d ++ r)) := by
  unfold FileTree.opendir
  rw [h fs' hle true r]

theorem SameWay.unlink (h : SameWay maxLinks b fs dir d) {fs' : FileSystem} (hle : fs.only d d ≤ fs')
    (r : List CString) :
    FileTree.unlink maxLinks fs' (dir ++ pathOf r) = FileTree.unlink b fs' (pathOf (d ++ r)) := by
  unfold FileTree.unlink
  rw [h fs' hle false r]

theorem SameWay.rmdir (h : SameWay maxLinks b fs dir d) (hd : d ≠ []) (hname : endsInName dir = true)
    {fs' : FileSystem} (hle : fs.only d d ≤ fs') (r : List CString) :
    FileTree.rmdir maxLinks listing fs' (dir ++ pathOf r) = FileTree.rmdir b listing fs' (pathOf (d ++ r)) := by
  have hname' : endsInName (dir ++ pathOf r) = true := by
    cases r using List.reverseRecOn with
    | nil => rwa [show dir ++ pathOf ([] : List CString) = dir from List.append_nil dir]
    | append_singleton r n =>
        rw [pathOf_append, ← List.append_assoc]
        exact endsInName_append _ n
  unfold FileTree.rmdir
  rw [if_pos hname', if_pos (endsInName_pathOf (by simp [hd])), h fs' hle false r]

/-- One child. -/
theorem SameWay.child (h : SameWay maxLinks b fs dir d)
    {deleteDirectory : FileSystem → FilePath → Except Fault (Bool × FileSystem)}
    {deleteDirectory' : FileSystem → FilePath → Except Fault (Bool × FileSystem)} {s : Bool × FileSystem}
    (hle : fs.only d d ≤ s.2) {r : List CString} {n : CString}
    (hrec : FileTree.stat b s.2 (pathOf (d ++ (r ++ [n]))) = some .dir →
      deleteDirectory s.2 (dir ++ pathOf (r ++ [n])) = deleteDirectory' s.2 (pathOf (d ++ (r ++ [n])))) :
    deleteChild maxLinks deleteDirectory (dir ++ pathOf r) s (.name n)
      = deleteChild b deleteDirectory' (pathOf (d ++ r)) s (.name n) := by
  have hpath : dir ++ pathOf r ++ [.name n] = dir ++ pathOf (r ++ [n]) := by
    rw [pathOf_append, List.append_assoc]
    rfl
  have hpath' : pathOf (d ++ r) ++ [.name n] = pathOf (d ++ (r ++ [n])) := by
    rw [← List.append_assoc, pathOf_append (d ++ r) [n]]
    rfl
  unfold deleteChild
  dsimp only
  rw [hpath, hpath', h.stat hle, h.unlink hle]
  cases hstat : FileTree.stat b s.2 (pathOf (d ++ (r ++ [n]))) with
  | none => rfl
  | some e =>
      cases e with
      | dir =>
          dsimp only
          rw [hrec hstat]
      | file content => rfl
      | link absolute target => rfl

/-- What is left outside the directory keeps the way to it. -/
theorem Within.only_le {fs' fs'' : FileSystem} {q : List CString} (h : Within q fs' fs'') (hq : d <+: q)
    (hne : ¬ q <+: d) (hle : fs.only d d ≤ fs') : fs.only d d ≤ fs'' := by
  intro x e hx
  have hsame : fs''.entry x = fs'.entry x := by
    apply h.frame x
    intro hqx
    rw [Tree.only_entry] at hx
    split at hx
    · next hkeep =>
        rcases hkeep with hout | hin
        · exact hout (hq.trans hqx)
        · exact hne (hqx.trans hin)
    · exact absurd hx (by simp)
  rw [hsame]
  exact hle x e hx

/-- A child seen as a directory in what is left is the directory of that name. -/
theorem Enclosed.entry_below (henclosed : Enclosed b fs (pathOf d) d) {fs' : FileSystem} (hle : fs' ≤ fs)
    {r : List CString} {n : CString} (hup : fs.entry (d ++ r) = some .dir)
    (hstat : FileTree.stat b fs' (pathOf (d ++ (r ++ [n]))) = some .dir) :
    fs'.entry (d ++ (r ++ [n])) = some .dir := by
  rw [pathOf_append] at hstat
  have hchild := henclosed.dir_below hle hup hstat
  obtain ⟨x, hx, hxdir⟩ := Option.bind_eq_some_iff.mp hstat
  have hfs := resolve_mono hle hx (by rw [hxdir]; simp)
  rw [← pathOf_append, resolve_place_follow b hchild rfl] at hfs
  injection hfs with hfs
  rw [hfs]
  exact hxdir

variable (listing)

/-- A round takes nothing from the directory itself, nor from the way to it. -/
theorem Enclosed.round_keeps (henclosed : Enclosed b fs (pathOf d) d) {fuel : Nat} {r : List CString}
    (hup : fs.entry (d ++ r) = some .dir) {s s' : Bool × FileSystem} (honly : fs.only d d ≤ s.2) (hle : s.2 ≤ fs)
    (hdir : s.2.entry (d ++ r) = some .dir) {child : Component CString}
    (hround : deleteChild b (linuxDeleteDirectory b listing fuel) (pathOf (d ++ r)) s child = .ok s') :
    fs.only d d ≤ s'.2 ∧ s'.2 ≤ fs ∧ s'.2.entry (d ++ r) = some .dir := by
  cases child with
  | here =>
      injection hround with hround
      exact hround ▸ ⟨honly, hle, hdir⟩
  | parent =>
      injection hround with hround
      exact hround ▸ ⟨honly, hle, hdir⟩
  | name n =>
      rw [pathOf_append] at hround
      have hwithin := within_child henclosed (fun fs' r out hle hup hrun =>
        delete_within henclosed fuel fs' r out hle hup hrun) hup hle hround
      have hbelow : ¬ d ++ (r ++ [n]) <+: d ++ r := by
        rw [← List.append_assoc]
        exact child_not_above (d ++ r) n
      refine ⟨hwithin.only_le (List.prefix_append d _) ?_ honly, le_trans hwithin.le hle, ?_⟩
      · exact fun hp => hbelow (hp.trans (List.prefix_append d r))
      · rw [hwithin.frame _ hbelow, hdir]

/-- **The walk through `dir` is the walk from the root.** -/
theorem SameWay.delete (h : SameWay maxLinks b fs dir d) (hd : d ≠ []) (hname : endsInName dir = true)
    (henclosed : Enclosed b fs (pathOf d) d) (fuel : Nat) (fs' : FileSystem) (r : List CString)
    (honly : fs.only d d ≤ fs') (hle : fs' ≤ fs) (hdir : fs'.entry (d ++ r) = some .dir) :
    linuxDeleteDirectory maxLinks listing fuel fs' (dir ++ pathOf r)
      = linuxDeleteDirectory b listing fuel fs' (pathOf (d ++ r)) := by
  induction fuel generalizing fs' r with
  | zero => rfl
  | succ fuel ih =>
      have hup := hle _ _ hdir
      rw [linuxDeleteDirectory, linuxDeleteDirectory, h.opendir honly, opendir_place hdir]
      dsimp only
      let inv := fun (s : Bool × FileSystem) => fs.only d d ≤ s.2 ∧ s.2 ≤ fs ∧ s.2.entry (d ++ r) = some .dir
      have hrounds : ∀ c, ∀ s : Bool × FileSystem, inv s →
          deleteChild maxLinks (linuxDeleteDirectory maxLinks listing fuel) (dir ++ pathOf r) s c
            = deleteChild b (linuxDeleteDirectory b listing fuel) (pathOf (d ++ r)) s c ∧
          ∀ s', deleteChild b (linuxDeleteDirectory b listing fuel) (pathOf (d ++ r)) s c = .ok s' → inv s' := by
        rintro c s ⟨hsonly, hsle, hsdir⟩
        refine ⟨?_, fun s' hround => henclosed.round_keeps listing hup hsonly hsle hsdir hround⟩
        cases c with
        | here   => rfl
        | parent => rfl
        | name n =>
            apply h.child hsonly
            intro hstat
            exact ih s.2 (r ++ [n]) hsonly hsle (henclosed.entry_below hsle hup hstat)
      have hloop : (listing.children fs' (d ++ r)).foldlM
            (deleteChild maxLinks (linuxDeleteDirectory maxLinks listing fuel) (dir ++ pathOf r)) (true, fs')
          = (listing.children fs' (d ++ r)).foldlM
            (deleteChild b (linuxDeleteDirectory b listing fuel) (pathOf (d ++ r))) (true, fs') :=
        Loops.foldlM_congr_invariant inv (fun c _ s hs => hrounds c s hs) ⟨honly, hle, hdir⟩
      rw [hloop]
      cases hrun : (listing.children fs' (d ++ r)).foldlM
          (deleteChild b (linuxDeleteDirectory b listing fuel) (pathOf (d ++ r))) (true, fs') with
      | error e => rfl
      | ok s =>
          obtain ⟨hsonly, -, -⟩ := Loops.foldlM_ok_invariant inv
            (fun c _ s s' hs hround => (hrounds c s hs).2 s' hround) ⟨honly, hle, hdir⟩ hrun
          show Except.ok (s.1, (FileTree.rmdir maxLinks listing s.2 (dir ++ pathOf r)).getD s.2) = _
          rw [h.rmdir hd hname hsonly]
          rfl

end Same

/-! ## What can be removed -/

section Removal

variable {fs : FileSystem} {dir : FilePath} {d : List CString}

/-- What holds the way to a link in the directory holds the way to the directory. -/
theorem only_self_le (fs : FileSystem) (d r : List CString) : fs.only d d ≤ fs.only d (d ++ r) := by
  intro x e hx
  rw [Tree.only_entry] at hx ⊢
  split at hx
  · next hkeep =>
      rw [if_pos (hkeep.imp id (fun hxd => hxd.trans (List.prefix_append d r)))]
      exact hx
  · exact absurd hx (by simp)

/-- **Removable directories are removed**, with nothing else. -/
theorem Removable.removed (h : Removable maxLinks fs dir d) (hdir : fs.entry d = some .dir) :
    AlwaysRemoved maxLinks fs dir d := by
  intro listing
  obtain ⟨b, hb, hsame⟩ := sameWay_of_way hdir h.way
  obtain ⟨e, n, rfl⟩ := (List.eq_nil_or_concat d).resolve_left h.ne_root
  rw [List.concat_eq_append] at *
  have hreplace : Replaceable b fs (e ++ [n]) := by
    refine ⟨Or.inr hdir, ?_⟩
    rintro p ⟨r, rfl⟩ hlink
    obtain ⟨content, hfile⟩ := h.links r hlink
    rw [hsame.stat (only_self_le fs _ r)] at hfile
    exact ⟨content, hfile⟩
  have henclosed : Enclosed b fs (pathOf (e ++ [n])) (e ++ [n]) :=
    ⟨resolve_place_follow b hdir rfl, hdir, fun p hp hlink => hreplace.linksToFiles.ne_dir (le_refl fs) hp hlink⟩
  obtain ⟨depth, hdepth⟩ := exists_depth fs
  refine ⟨depth + 1, ?_⟩
  intro fuel hfuel
  obtain ⟨fuel, rfl⟩ := Nat.exists_eq_add_of_le' (Nat.le_trans (Nat.succ_pos depth) hfuel)
  have hbound : ∀ p, fs.entry p ≠ none → p.length < fuel + 1 :=
    fun p hp => Nat.lt_of_lt_of_le (hdepth p hp) (by omega)
  have hshallow := shallow_of_depth hbound
  obtain ⟨out, hrun, hout⟩ := delete_replaceable listing hreplace
    (fs.closed e n (by rw [hdir]; simp)) (hshallow (e ++ [n]))
  have hsim := hsame.delete listing h.ne_root h.named henclosed (fuel + 1) fs [] Tree.only_le (le_refl fs)
    (by rw [List.append_nil, hdir])
  rw [List.append_nil, show dir ++ pathOf ([] : List CString) = dir from List.append_nil dir, hrun] at hsim
  refine ⟨out, hsim, ?_, ?_, ?_⟩
  · -- what the path leads to now, it led to before
    unfold lstat
    cases hresolve : resolve out.2 false maxLinks [] dir with
    | none => rfl
    | some x =>
        by_contra hexists
        rw [Option.bind_some] at hexists
        have hle : out.2 ≤ fs := by rw [hout]; exact Tree.without_le _
        have hfs := resolve_mono hle hresolve hexists
        have hplace := resolve_mono Tree.only_le h.way (by
          rw [Tree.only_entry, if_pos (Or.inr (List.prefix_refl _)), hdir]
          simp)
        rw [hplace] at hfs
        injection hfs with hfs
        rw [← hfs, hout, Tree.without_entry, if_neg (not_not_intro (List.prefix_refl _))] at hexists
        exact hexists rfl
  · intro r
    rw [hout, Tree.without_entry, if_neg (not_not_intro (List.prefix_append _ r))]
  · intro p hp _
    rw [hout, Tree.without_entry, if_pos hp]

/-- A walk that gets rid of the directory has all its links lead to files. -/
theorem linksToFiles_of_gone {fuel : Nat} {out : Bool × FileSystem}
    (hrun : linuxDeleteDirectory maxLinks listing fuel fs dir = .ok out) (hbelow : ∀ r, out.2.entry (d ++ r) = none) :
    LinksToFiles maxLinks fs d := by
  rintro p ⟨r, rfl⟩ hlink
  by_contra hno
  obtain ⟨absolute, target, hleft⟩ := (delete_deletes fuel fs dir out hrun).stuck _ ⟨hlink, hno⟩
  rw [hbelow r] at hleft
  exact absurd hleft (by simp)

/-- It takes the directory itself in its last step, so the way there does not pass through it. -/
theorem way_of_gone {fuel : Nat} {out : Bool × FileSystem} (henclosed : Enclosed maxLinks fs dir d)
    (hrun : linuxDeleteDirectory maxLinks listing (fuel + 1) fs dir = .ok out) (hgone : out.2.entry d = none) :
    d ≠ [] ∧ endsInName dir = true ∧ resolve (fs.only d d) false maxLinks [] dir = some d := by
  have hpath : dir ++ pathOf ([] : List CString) = dir := List.append_nil dir
  have hup : fs.entry (d ++ []) = some .dir := by rw [List.append_nil, henclosed.dir]
  unfold linuxDeleteDirectory at hrun
  split at hrun
  · next dirHandle _ =>
      obtain ⟨s, hloop, hrun⟩ := Loops.bind_eq_ok hrun
      injection hrun with hrun
      rw [← hpath] at hloop
      obtain ⟨hle, hframe⟩ := within_children henclosed
        (fun fs' r out hle hup hrun => delete_within henclosed fuel fs' r out hle hup hrun) hup (le_refl fs) hloop
      have hdir : s.2.entry d = some .dir := by
        rw [hframe d (fun n => child_not_above d n), henclosed.dir]
      cases hrmdir : rmdir maxLinks listing s.2 dir with
      | none =>
          rw [← hrun, hrmdir, Option.getD_none, hdir] at hgone
          exact absurd hgone (by simp)
      | some fs' =>
          rw [← hpath] at hrmdir
          obtain ⟨hleaf, hname, hresolve, -⟩ := henclosed.rmdir_place hle hup hrmdir
          rw [hpath] at hname hresolve
          rw [List.append_nil] at hleaf hresolve
          refine ⟨hleaf.ne_root, hname, resolve_mono ?_ hresolve (by rw [hdir]; simp)⟩
          -- nothing is below the directory any more
          intro x e hx
          rw [Tree.only_entry, if_pos, hle x e hx]
          by_cases hdx : d <+: x
          · obtain ⟨r, rfl⟩ := hdx
            cases r with
            | nil => exact Or.inr (by rw [List.append_nil])
            | cons n r =>
                have hn : s.2.entry (d ++ [n]) ≠ none :=
                  Tree.ne_none_above (⟨r, by simp⟩ : d ++ [n] <+: d ++ n :: r) (by rw [hx]; simp)
                exact absurd (hleaf.leaf n) hn
          · exact Or.inl hdx
  · injection hrun with hrun
    rw [← hrun, henclosed.dir] at hgone
    exact absurd hgone (by simp)

/-- **When `linux_delete_directory` removes exactly the subtree**: if and only if the path names the directory
    itself, does not pass through it, and every link in it is seen as a file when its turn comes last. -/
theorem delete_directory_iff (maxLinks : Nat) (fs : FileSystem) (dir : FilePath) (d : List CString)
    (hnames : opendir maxLinks fs dir = some d) :
    AlwaysRemoved maxLinks fs dir d ↔ Removable maxLinks fs dir d := by
  have hopen : resolve fs true maxLinks [] dir = some d ∧ fs.entry d = some .dir := by
    unfold opendir at hnames
    split at hnames
    · next p hp =>
        split at hnames
        · next hdir =>
            injection hnames with hnames
            exact hnames ▸ ⟨hp, hdir⟩
        · exact absurd hnames (by simp)
    · exact absurd hnames (by simp)
  obtain ⟨hresolve, hdir⟩ := hopen
  constructor
  · intro halways
    obtain ⟨fuel, hfuel⟩ := halways (Listing.last [])
    obtain ⟨out, hrun, hremoved⟩ := hfuel (fuel + 1) (Nat.le_succ fuel)
    have hfiles := linksToFiles_of_gone hrun hremoved.below
    have henclosed : Enclosed maxLinks fs dir d :=
      ⟨hresolve, hdir, fun p hp hlink => hfiles.ne_dir (le_refl fs) hp hlink⟩
    have hgone : out.2.entry d = none := by simpa using hremoved.below []
    obtain ⟨hd, hname, hway⟩ := way_of_gone henclosed hrun hgone
    refine ⟨hd, hname, hway, ?_⟩
    intro r hlink
    -- an order in which the link comes last
    obtain ⟨fuel, hfuel⟩ := halways (Listing.last (d ++ r))
    obtain ⟨depth, hdepth⟩ := exists_depth fs
    obtain ⟨out, hrun, hremoved⟩ := hfuel (fuel + depth) (Nat.le_add_right fuel depth)
    obtain ⟨b, hb, hsame⟩ := sameWay_of_way hdir hway
    have hlinks : ∀ p, d <+: p → IsLink fs p → stat b fs (pathOf p) ≠ some .dir := by
      intro p hp hp' hseen
      obtain ⟨x, hx, hxdir⟩ := Option.bind_eq_some_iff.mp hseen
      apply henclosed.links p hp hp'
      unfold stat
      rw [resolve_allowance hb hx]
      exact hxdir
    have hsim := hsame.delete (Listing.last (d ++ r)) hd hname ⟨resolve_place_follow b hdir rfl, hdir, hlinks⟩
      (fuel + depth) fs [] Tree.only_le (le_refl fs) (by rw [List.append_nil, hdir])
    rw [List.append_nil, show dir ++ pathOf ([] : List CString) = dir from List.append_nil dir, hrun] at hsim
    have hr : r ≠ [] := by
      rintro rfl
      obtain ⟨absolute, target, hlink⟩ := hlink
      rw [List.append_nil, hdir] at hlink
      exact absurd hlink (by simp)
    obtain ⟨content, hfile⟩ := delete_last (Listing.last (d ++ r)) (fuel + depth) fs d r hr
      (Listing.last_last (d ++ r)) ⟨hd, hdir, hlinks⟩
      (shallow_of_depth (fun p hp => Nat.lt_of_lt_of_le (hdepth p hp) (Nat.le_add_left depth fuel)) d)
      hlink out hsim.symm (by simpa using hremoved.below [])
    exact ⟨content, by rw [hsame.stat (only_self_le fs d r), hfile]⟩
  · exact fun h => h.removed hdir

end Removal

end Subtree

/-! ## The checkout with one link -/

/-- The directory `test` of that checkout. -/
def linkedTest : List CString := [CString.lit "hw1-bob", testName]

theorem delete_directory_linked :
    opendir linuxMaxLinks (linkedCheckout false) (pathOf linkedTest) = some linkedTest ∧
    AlwaysRemoved linuxMaxLinks (linkedCheckout false) (pathOf linkedTest) linkedTest := by
  refine ⟨by decide, (delete_directory_iff linuxMaxLinks (linkedCheckout false) (pathOf linkedTest) linkedTest
    (by decide)).mpr ⟨by decide, by decide, by decide, ?_⟩⟩
  intro r hlink
  have hr : r = [CString.lit "l"] := List.append_cancel_left (linkedCheckout_link hlink)
  subst hr
  exact ⟨[1], by decide⟩

/-- **A dangling link stays, and the directory with it**, in whatever order it is listed. -/
theorem delete_directory_counterexample :
    opendir linuxMaxLinks (linkedCheckout true) (pathOf linkedTest) = some linkedTest ∧
    ∀ listing fuel out,
      linuxDeleteDirectory linuxMaxLinks listing fuel (linkedCheckout true) (pathOf linkedTest) = .ok out →
      ¬ SubtreeRemoved linuxMaxLinks (linkedCheckout true) out.2 (pathOf linkedTest) linkedTest := by
  refine ⟨by decide, ?_⟩
  intro listing fuel out hrun hremoved
  obtain ⟨content, hfile⟩ := linksToFiles_of_gone hrun hremoved.below (linkedTest ++ [CString.lit "l"])
    (List.prefix_append _ _) ⟨false, [.name (CString.lit "nowhere")], by decide⟩
  have hnothing : stat linuxMaxLinks (linkedCheckout true) (pathOf (linkedTest ++ [CString.lit "l"])) = none := by
    decide
  rw [hnothing] at hfile
  exact absurd hfile (by simp)

end Hand2
