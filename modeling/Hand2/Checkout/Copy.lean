import Hand2.Checkout.Delete

/-!
# `Checkout.Copy` — what `linux_copy_directory` makes

The copy starts with a `mkdir`, so anything that already stands at the target keeps all of it from being
copied. Where nothing does, a source of directories and files is copied entry by entry, through paths that lead to
both (`copy_paths`), whatever the order of the entries (`copyDirectory_faithful`). In any run nothing disappears and
no link changes (`copy_keeps`).
-/

namespace Hand2

open FileTree

section Copy

variable {maxLinks : Nat} (listing : Listing CString (List UInt8))

/-! ## Any run -/

theorem keeps_copyFile (fs : FileSystem) (targetPath sourcePath : FilePath) :
    Keeps fs (linuxCopyFile maxLinks fs targetPath sourcePath).2 := by
  unfold linuxCopyFile
  cases hwrite : openWrite maxLinks [] fs targetPath with
  | none => cases openRead maxLinks fs sourcePath <;> exact Keeps.refl fs
  | some opened =>
      obtain ⟨target, fs'⟩ := opened
      have hopened : Keeps fs fs' := keeps_openWrite hwrite
      cases openRead maxLinks fs sourcePath with
      | none => exact hopened
      | some source =>
          dsimp only
          split
          · split
            · split
              · next hwritten => exact hopened.trans (keeps_writeAt hwritten)
              · exact hopened
            · exact hopened
          · exact hopened

theorem keeps_child {copyDirectory : FileSystem → FilePath → FilePath → Except Fault (Bool × FileSystem)}
    (hrec : ∀ fs target source out, copyDirectory fs target source = .ok out → Keeps fs out.2)
    {targetDir sourceDir : FilePath} {s s' : Bool × FileSystem} {child : Component CString}
    (h : copyChild maxLinks copyDirectory targetDir sourceDir s child = .ok s') : Keeps s.2 s'.2 := by
  cases child with
  | here =>
      injection h with h
      exact h ▸ Keeps.refl _
  | parent =>
      injection h with h
      exact h ▸ Keeps.refl _
  | name name =>
      unfold copyChild at h
      dsimp only at h
      split at h
      · injection h with h
        exact h ▸ Keeps.refl _
      · obtain ⟨out, hout, h⟩ := Loops.bind_eq_ok h
        injection h with h
        have hkeeps := hrec _ _ _ _ hout
        exact h ▸ hkeeps
      · injection h with h
        rw [← h]
        exact keeps_copyFile _ _ _

/-- **Whatever it is called on, the copy takes nothing away.** -/
theorem copy_keeps (fuel : Nat) (fs : FileSystem) (targetDir sourceDir : FilePath) (out : Bool × FileSystem)
    (h : linuxCopyDirectory maxLinks listing fuel fs targetDir sourceDir = .ok out) : Keeps fs out.2 := by
  induction fuel generalizing fs targetDir sourceDir out with
  | zero => exact absurd h (by simp [linuxCopyDirectory])
  | succ fuel ih =>
      unfold linuxCopyDirectory at h
      split at h
      · next fs' hmkdir =>
          have hmade := keeps_mkdir hmkdir
          split at h
          · exact Loops.foldlM_ok_invariant (fun s : Bool × FileSystem => Keeps fs s.2)
              (fun child _ s s' hs hrun => hs.trans (keeps_child ih hrun)) hmade h
          · injection h with h
            exact h ▸ hmade
      · injection h with h
        exact h ▸ Keeps.refl fs

/-! ## A free target -/

/-- A file copied to where there is nothing. -/
theorem copyFile_free {fs : FileSystem} {targetPath sourcePath : FilePath} {target source : List CString}
    {content : List UInt8} (htarget : LeadsToFree maxLinks fs targetPath target)
    (hpath : resolve fs true maxLinks [] sourcePath = some source) (hsource : fs.entry source = some (.file content))
    (x : List CString) :
    (linuxCopyFile maxLinks fs targetPath sourcePath).2.entry x
      = if x = target then some (.file content) else fs.entry x := by
  have hne : source ≠ target := by
    rintro rfl
    rw [htarget.free] at hsource
    exact absurd hsource (by simp)
  obtain ⟨opened, hopen, hentry⟩ := openWrite_free [] htarget
  have hcontent : contentAt opened source = some content := by
    unfold contentAt
    rw [hentry, if_neg hne, hsource]
  unfold linuxCopyFile
  rw [openRead_resolved hpath hsource, hopen]
  dsimp only
  rw [hcontent]
  dsimp only
  split
  · -- the content is written over the empty file
    have hup : opened.entry target.dropLast = some .dir := by
      rw [hentry, if_neg (Tree.dropLast_ne_of_free htarget.free), htarget.up]
    obtain ⟨written, hwrite, hentry'⟩ := writeAt_entry content hup
      (Or.inr ⟨[], by rw [hentry, if_pos rfl]⟩)
    rw [hwrite]
    dsimp only
    rw [hentry', hentry]
    split <;> rfl
  · -- an empty file stays empty
    next hempty =>
      obtain rfl : content = [] := List.length_eq_zero_iff.mp (Nat.eq_zero_of_not_pos hempty)
      exact hentry x

/-- The part of a tree at one place is the part of another at another. -/
def SameTree (fs : FileSystem) (p : List CString) (fs' : FileSystem) (q : List CString) : Prop :=
  ∀ r, fs.entry (p ++ r) = fs'.entry (q ++ r)

/-- A directory with nothing but directories and files in it. -/
structure Plain (fs : FileSystem) (d : List CString) : Prop where
  dir : fs.entry d = some .dir
  no_link : ∀ p, d <+: p → ¬ IsLink fs p

/-- Neither directory is within the other. -/
def Apart (p q : List CString) : Prop := ¬ p <+: q ∧ ¬ q <+: p

theorem Apart.symm {p q : List CString} (h : Apart p q) : Apart q p := ⟨h.2, h.1⟩

/-- Places within directories that are apart are apart. -/
theorem Apart.not_below {p q x : List CString} (h : Apart p q) (hq : q <+: x) : ¬ p <+: x := by
  intro hp
  rcases Nat.le_total p.length q.length with hlen | hlen
  · exact h.1 (List.prefix_of_prefix_length_le hp hq hlen)
  · exact h.2 (List.prefix_of_prefix_length_le hq hp hlen)

theorem Apart.append {p q : List CString} (h : Apart p q) (r s : List CString) : Apart (p ++ r) (q ++ s) := by
  constructor
  · intro hpq
    exact h.not_below (List.prefix_append q s) ((List.prefix_append p r).trans hpq)
  · intro hqp
    exact h.symm.not_below (List.prefix_append p r) ((List.prefix_append q s).trans hqp)

/-- What a copy makes: the source at the target, and nothing else changes. -/
structure Copied (fs : FileSystem) (target source : List CString) (fs' : FileSystem) : Prop where
  frame : ∀ p, ¬ target <+: p → fs'.entry p = fs.entry p
  same : SameTree fs' target fs source

/-- The loop, with the children in `done` behind it. -/
structure CopyProgress (fs : FileSystem) (target source : List CString) (done : List (Component CString))
    (fs' : FileSystem) : Prop where
  dir : fs'.entry target = some .dir
  frame : ∀ p, ¬ target <+: p → fs'.entry p = fs.entry p
  same : ∀ n, .name n ∈ done → SameTree fs' (target ++ [n]) fs (source ++ [n])
  free : ∀ n, .name n ∉ done → fs'.entry (target ++ [n]) = none

/-- **One round.** -/
theorem CopyProgress.step {fs fs' fs'' : FileSystem} {target source : List CString}
    {done : List (Component CString)} (h : CopyProgress fs target source done fs') (hapart : Apart target source)
    {n : CString} (hn : .name n ∉ done) (hround : Copied fs' (target ++ [n]) (source ++ [n]) fs'') :
    CopyProgress fs target source (done ++ [.name n]) fs'' := by
  have hsource : SameTree fs' (source ++ [n]) fs (source ++ [n]) := by
    intro r
    refine h.frame _ (hapart.not_below ?_)
    rw [List.append_assoc]
    exact List.prefix_append source _
  refine ⟨?_, ?_, ?_, ?_⟩
  · rw [hround.frame _ (child_not_above target n), h.dir]
  · intro p hp
    rw [hround.frame p (fun hnp => hp ((List.prefix_append target [n]).trans hnp)), h.frame p hp]
  · intro m hm
    rcases List.mem_append.mp hm with hm | hm
    · have hne : m ≠ n := fun heq => hn (heq ▸ hm)
      intro r
      rw [hround.frame _ (fun hnp => hne (child_unique (List.prefix_append _ r) hnp)), h.same m hm r]
    · have heq : m = n := by simpa using hm
      subst heq
      exact fun r => (hround.same r).trans (hsource r)
  · intro m hm
    rw [List.mem_append, not_or] at hm
    have hne : m ≠ n := fun heq => hm.2 (by rw [heq]; exact List.mem_singleton_self _)
    rw [hround.frame _ (fun hnp => hne (child_unique (List.prefix_refl _) hnp)), h.free m hm.1]

/-- A name that is no entry of a directory changes nothing. -/
theorem CopyProgress.skip {fs fs' : FileSystem} {target source : List CString} {done : List (Component CString)}
    (h : CopyProgress fs target source done fs') {c : Component CString} (hc : ∀ n, c ≠ .name n) :
    CopyProgress fs target source (done ++ [c]) fs' := by
  have hmem : ∀ n, .name n ∈ done ++ [c] ↔ .name n ∈ done := by
    intro n
    rw [List.mem_append, List.mem_singleton]
    exact ⟨fun h => h.resolve_right (fun heq => hc n heq.symm), Or.inl⟩
  exact ⟨h.dir, h.frame, fun n hn => h.same n ((hmem n).mp hn), fun n hn => h.free n (fun hin => hn ((hmem n).mpr hin))⟩

/-- With all children done the target is the same as the source. -/
theorem CopyProgress.finish {fs fs' : FileSystem} {target source : List CString} {done : List (Component CString)}
    (h : CopyProgress fs target source done fs') (hdir : fs.entry source = some .dir)
    (hall : ∀ n, fs.entry (source ++ [n]) ≠ none → .name n ∈ done) : Copied fs target source fs' := by
  refine ⟨h.frame, ?_⟩
  intro r
  cases r with
  | nil => rw [List.append_nil, List.append_nil, h.dir, hdir]
  | cons n r =>
      have htarget : target ++ n :: r = target ++ [n] ++ r := by simp
      have hsource : source ++ n :: r = source ++ [n] ++ r := by simp
      rw [htarget, hsource]
      by_cases hn : .name n ∈ done
      · exact h.same n hn r
      · have hnone : fs.entry (source ++ [n]) = none := by
          by_contra hexists
          exact hn (hall n hexists)
        rw [Tree.none_below (List.prefix_append _ r) (h.free n hn),
          Tree.none_below (List.prefix_append _ r) hnone]

/-- A file that has been copied. -/
theorem copied_file {fs fs' : FileSystem} {target source : List CString} {content : List UInt8}
    (hfree : fs.entry target = none) (hsource : fs.entry source = some (.file content))
    (hentry : ∀ x, fs'.entry x = if x = target then some (.file content) else fs.entry x) :
    Copied fs target source fs' := by
  constructor
  · intro p hp
    have hne : p ≠ target := by
      rintro rfl
      exact hp (List.prefix_refl p)
    rw [hentry, if_neg hne]
  · intro r
    by_cases hr : r = []
    · rw [hr, List.append_nil, List.append_nil, hentry, if_pos rfl, hsource]
    · -- nothing is below a file
      have hbelow : fs.entry (source ++ r) = none := by
        by_contra hexists
        have := Tree.dir_of_append hr hexists
        rw [hsource] at this
        exact absurd this (by simp)
      have hne : target ++ r ≠ target := by simpa using hr
      rw [hentry, if_neg hne, hbelow, Tree.none_below (List.prefix_append target r) hfree]

/-- What is kept grows. -/
theorem CopyProgress.le {fs fs' : FileSystem} {target source : List CString} {done : List (Component CString)}
    (h : CopyProgress fs target source done fs') (hfree : fs.entry target = none) : fs ≤ fs' := by
  intro p e hp
  rw [h.frame p, hp]
  intro hbelow
  rw [Tree.none_below hbelow hfree] at hp
  exact absurd hp (by simp)

/-- A call of `linux_copy_directory` that can succeed: a path to a free place, and one to a plain source, which the
    place is not in. -/
structure CopyCall (maxLinks : Nat) (fs : FileSystem) (targetPath sourcePath : FilePath)
    (target source : List CString) : Prop where
  free : LeadsToFree maxLinks fs targetPath target
  path : resolve fs true maxLinks [] sourcePath = some source
  plain : Plain fs source
  outside : ¬ source <+: target

/-- What does not exist has nothing in it either. -/
theorem CopyCall.apart {fs : FileSystem} {targetPath sourcePath : FilePath} {target source : List CString}
    (h : CopyCall maxLinks fs targetPath sourcePath target source) : Apart target source := by
  refine ⟨?_, h.outside⟩
  intro hbelow
  have hnone := Tree.none_below hbelow h.free.free
  rw [h.plain.dir] at hnone
  exact absurd hnone (by simp)

/-- `copyDirectory` succeeds, and makes the target the same as the source, for any source less than `fuel` directories
    deep. -/
def CopiesPaths (maxLinks fuel : Nat)
    (copyDirectory : FileSystem → FilePath → FilePath → Except Fault (Bool × FileSystem)) : Prop :=
  ∀ fs targetPath sourcePath target source, CopyCall maxLinks fs targetPath sourcePath target source →
    Shallow fs source fuel →
    ∃ fs', copyDirectory fs targetPath sourcePath = .ok (true, fs') ∧ Copied fs target source fs'

section Round

variable {fuel : Nat} {copyDirectory : FileSystem → FilePath → FilePath → Except Fault (Bool × FileSystem)}
  {fs fs' : FileSystem} {targetPath sourcePath : FilePath} {target source : List CString}
  {done : List (Component CString)}

/-- The paths of a child, with the children in `done` copied. -/
theorem CopyCall.child (h : CopyCall maxLinks fs targetPath sourcePath target source)
    (hs : CopyProgress fs target source done fs') {m : CString} (hm : .name m ∉ done) :
    LeadsToFree maxLinks fs' (targetPath ++ [.name m]) (target ++ [m]) ∧
      resolve fs' true maxLinks [] (sourcePath ++ [.name m]) = some (source ++ [m]) ∧
      (∀ p, source <+: p → fs'.entry p = fs.entry p) ∧ ¬ source ++ [m] <+: target ++ [m] := by
  have hle := hs.le h.free.free
  have hsame : ∀ p, source <+: p → fs'.entry p = fs.entry p := fun p hp => hs.frame p (h.apart.not_below hp)
  have hfree := hs.free m hm
  have htargetDir := hs.dir
  refine ⟨⟨?_, hfree, by rw [List.dropLast_concat, hs.dir]⟩, ?_, hsame, (h.apart.append [m] [m]).2⟩
  · exact resolve_child (resolve_made hle fs'.root h.free.path (by rw [hs.dir]; simp)) hs.dir (by rw [hfree]; simp)
  · apply resolve_child (resolve_mono hle h.path (by rw [h.plain.dir]; simp))
    · rw [hsame _ (List.prefix_refl _), h.plain.dir]
    · intro absolute entry hlink
      rw [hsame _ (List.prefix_append _ _)] at hlink
      exact h.plain.no_link _ (List.prefix_append _ _) ⟨absolute, entry, hlink⟩

/-- **One round** of a loop whose recursive calls copy. -/
theorem CopyProgress.round (hrec : CopiesPaths maxLinks fuel copyDirectory)
    (h : CopyCall maxLinks fs targetPath sourcePath target source) (hfuel : Shallow fs source (fuel + 1))
    (hs : CopyProgress fs target source done fs') {c : Component CString} (hc : c ∉ done)
    (hexists : ∀ m, c = .name m → fs.entry (source ++ [m]) ≠ none) :
    ∃ fs'', copyChild maxLinks copyDirectory targetPath sourcePath (true, fs') c = .ok (true, fs'') ∧
      CopyProgress fs target source (done ++ [c]) fs'' := by
  cases c with
  | here   => exact ⟨fs', rfl, hs.skip (fun n => by simp)⟩
  | parent => exact ⟨fs', rfl, hs.skip (fun n => by simp)⟩
  | name m =>
      obtain ⟨hfree, hpath, hsame, houtside⟩ := h.child hs hc
      have hbelow : ∀ p, source ++ [m] <+: p → source <+: p := fun p hp => (List.prefix_append _ _).trans hp
      have hchild := hsame (source ++ [m]) (List.prefix_append _ _)
      unfold copyChild
      dsimp only
      rw [stat_resolved hpath, hchild]
      obtain ⟨e, he⟩ := Option.ne_none_iff_exists'.mp (hexists m rfl)
      rw [he]
      cases e with
      | link absolute entry =>
          exact absurd ⟨absolute, entry, he⟩ (h.plain.no_link _ (List.prefix_append _ _))
      | file content =>
          -- that the return value of `linux_copy_file` is 0 for an empty file is not looked at
          refine ⟨_, rfl, hs.step h.apart hc ?_⟩
          exact copied_file hfree.free (hchild.trans he) (copyFile_free hfree hpath (hchild.trans he))
      | dir =>
          have hplain : Plain fs' (source ++ [m]) := by
            refine ⟨hchild.trans he, ?_⟩
            rintro p hp ⟨absolute, entry, hlink⟩
            rw [hsame p (hbelow p hp)] at hlink
            exact h.plain.no_link p (hbelow p hp) ⟨absolute, entry, hlink⟩
          have hshallow : Shallow fs' (source ++ [m]) fuel := by
            intro r hr
            rw [hsame _ (hbelow _ (List.prefix_append _ r)), List.append_assoc] at hr
            simpa using hfuel ([m] ++ r) hr
          obtain ⟨fs'', hrun, hcopied⟩ := hrec fs' _ _ _ _ ⟨hfree, hpath, hplain, houtside⟩ hshallow
          refine ⟨fs'', ?_, hs.step h.apart hc hcopied⟩
          dsimp only
          rw [hrun]
          rfl

end Round

/-- **`linux_copy_directory` to a free place** succeeds, and makes the target the same as the source. -/
theorem copy_paths (fuel : Nat) : CopiesPaths maxLinks fuel (linuxCopyDirectory maxLinks listing fuel) := by
  induction fuel with
  | zero =>
      intro fs _ _ target source h hfuel
      exact absurd (hfuel [] (by rw [List.append_nil, h.plain.dir]; simp)) (Nat.not_lt_zero _)
  | succ fuel ih =>
      intro fs targetPath sourcePath target source h hfuel
      let made := fs.put target .dir (Tree.childless_of_ne_dir (by rw [h.free.free]; simp)) h.free.up
      have hstart : CopyProgress fs target source [] made := by
        refine ⟨?_, ?_, fun m hm => absurd hm List.not_mem_nil, ?_⟩
        · rw [Tree.put_entry, if_pos rfl]
        · intro p hp
          have hne : p ≠ target := by
            rintro rfl
            exact hp (List.prefix_refl _)
          rw [Tree.put_entry, if_neg hne]
        · intro m _
          rw [Tree.put_entry, if_neg (by simp), Tree.none_below (List.prefix_append _ [m]) h.free.free]
      have hsource : ∀ p, source <+: p → made.entry p = fs.entry p :=
        fun p hp => hstart.frame p (h.apart.not_below hp)
      have hlisted : ∀ m, .name m ∈ listing.children made source ↔ fs.entry (source ++ [m]) ≠ none := by
        intro m
        rw [listing.mem_iff, hsource _ (List.prefix_append _ _)]
      have hdir : made.entry source = some .dir := by rw [hsource _ (List.prefix_refl _), h.plain.dir]
      have hopen : opendir maxLinks made sourcePath = some source :=
        opendir_resolved (resolve_mono (hstart.le h.free.free) h.path (by rw [h.plain.dir]; simp)) hdir
      obtain ⟨⟨result, fs'⟩, hrun, rfl, hs⟩ := Loops.foldlM_prefix_invariant
        (f := copyChild maxLinks (linuxCopyDirectory maxLinks listing fuel) targetPath sourcePath)
        (l := listing.children made source) (a := (true, made))
        (fun done (s : Bool × FileSystem) => s.1 = true ∧ CopyProgress fs target source done s.2) ⟨rfl, hstart⟩
        (fun done c rest hsplit s hs => by
          obtain ⟨result, fs'⟩ := s
          obtain ⟨rfl, hs⟩ := hs
          have hnodup := listing.nodup made source
          rw [hsplit] at hnodup
          have hc : c ∉ done := fun hin => (List.nodup_append.mp hnodup).2.2 _ hin _ List.mem_cons_self rfl
          obtain ⟨fs'', hround, hs'⟩ := hs.round ih h hfuel hc (fun m hm => (hlisted m).mp (by rw [hsplit, hm]; simp))
          exact ⟨(true, fs''), hround, rfl, hs'⟩)
      refine ⟨fs', ?_, hs.finish h.plain.dir (fun m hm => (hlisted m).mpr hm)⟩
      rw [linuxCopyDirectory, mkdir_free h.free]
      dsimp only
      rw [hopen]
      exact hrun

/-- `copyDirectory` makes a free target the same as any plain source less than `fuel` directories deep. -/
def Copies (fuel : Nat) (copyDirectory : FileSystem → FilePath → FilePath → Except Fault (Bool × FileSystem)) :
    Prop :=
  ∀ fs d n source, fs.entry d = some .dir → fs.entry (d ++ [n]) = none → Plain fs source →
    Apart (d ++ [n]) source → Shallow fs source fuel →
    ∃ out, copyDirectory fs (pathOf (d ++ [n])) (pathOf source) = .ok out ∧ Copied fs (d ++ [n]) source out.2

/-- The same for the paths of the places. -/
theorem copy_plain (fuel : Nat) : Copies fuel (linuxCopyDirectory maxLinks listing fuel) := by
  intro fs d n source hdir hfree hplain hapart hfuel
  obtain ⟨fs', hrun, hcopied⟩ := copy_paths listing fuel fs _ _ _ _
    ⟨leadsToFree_place maxLinks hdir hfree, resolve_place_follow maxLinks hplain.dir rfl, hplain, hapart.2⟩ hfuel
  exact ⟨_, hrun, hcopied⟩

/-- A copy is determined by what was there. -/
theorem Copied.unique {fs fs' fs'' : FileSystem} {target source : List CString} (h : Copied fs target source fs')
    (h' : Copied fs target source fs'') : fs' = fs'' := by
  refine Tree.ext (funext fun p => ?_)
  by_cases hp : target <+: p
  · obtain ⟨r, rfl⟩ := hp
    rw [h.same r, h'.same r]
  · rw [h.frame p hp, h'.frame p hp]

/-- **A copy is faithful.** Called with a path to a free place in a directory and a path to a directory of directories
    and files that the place is not in, `linux_copy_directory` returns 1 and leaves one and the same tree, whatever the
    order in which directories list their entries: the target holds what the source holds, and everything else is as it
    was. -/
theorem copyDirectory_faithful {maxLinks : Nat} {fs : FileSystem} {targetPath sourcePath : FilePath}
    {target source : List CString} (h : CopyCall maxLinks fs targetPath sourcePath target source) :
    ∃ fs', Copied fs target source fs' ∧ ∃ bound, ∀ listing : Listing CString (List UInt8), ∀ fuel ≥ bound,
      linuxCopyDirectory maxLinks listing fuel fs targetPath sourcePath = .ok (true, fs') := by
  obtain ⟨bound, hbound⟩ := exists_depth fs
  have hcopy : ∀ (listing : Listing CString (List UInt8)), ∀ fuel ≥ bound, ∃ fs',
      linuxCopyDirectory maxLinks listing fuel fs targetPath sourcePath = .ok (true, fs') ∧
        Copied fs target source fs' := by
    intro listing fuel hfuel
    apply copy_paths listing fuel fs _ _ _ _ h
    exact shallow_of_depth (fun p hp => Nat.lt_of_lt_of_le (hbound p hp) hfuel) source
  obtain ⟨fs', -, hcopied⟩ := hcopy (Listing.last []) bound (Nat.le_refl bound)
  refine ⟨fs', hcopied, bound, ?_⟩
  intro listing fuel hfuel
  obtain ⟨fs'', hrun, hcopied'⟩ := hcopy listing fuel hfuel
  rw [hrun, hcopied.unique hcopied']

end Copy

/-! ## A template with an empty file -/

/-- The names of a template, and of a directory in it. -/
def sampleName : CString := CString.lit "tmpl"
def sampleTest : CString := CString.lit "test"

/-- A template with an empty file, and a file in a directory. -/
def sampleEntries : List (List CString × Entry CString (List UInt8)) :=
  [([sampleName], .dir), ([sampleName, CString.lit "empty"], .file []), ([sampleName, sampleTest], .dir),
    ([sampleName, sampleTest, CString.lit "t.c"], .file [1])]

def sampleFiles : FileSystem := Tree.ofList sampleEntries (by decide)

theorem sampleFiles_plain : Plain sampleFiles [sampleName] := by
  refine ⟨by decide, ?_⟩
  rintro p hp ⟨absolute, target, hlink⟩
  have hne : p ≠ [] := by
    rintro rfl
    exact absurd (List.prefix_nil.mp hp) (by simp)
  have hall : ∀ x ∈ sampleEntries, x.2.isLink = false := by decide
  exact absurd (hall _ (Tree.mem_of_lookup hne hlink)) (by simp [Entry.isLink])

/-- `tmpl/test/../../hw1` is free, and it is not in `tmpl`. -/
theorem copyDirectory_faithful_sample :
    ∃ fs', Copied sampleFiles [CString.lit "hw1"] [sampleName] fs' ∧ ∃ bound,
      ∀ listing : Listing CString (List UInt8), ∀ fuel ≥ bound,
        linuxCopyDirectory 40 listing fuel sampleFiles
          [.name sampleName, .name sampleTest, .parent, .parent, .name (CString.lit "hw1")] [.here, .name sampleName]
          = .ok (true, fs') :=
  copyDirectory_faithful ⟨⟨by decide, by decide, by decide⟩, by decide, sampleFiles_plain, by decide⟩

end Hand2
