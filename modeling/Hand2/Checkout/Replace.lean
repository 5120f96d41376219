import Hand2.Checkout.Copy

/-!
# `Checkout.Replace` — whether the tests are the template's

The four calls by which `grade_homework` replaces `test` and `docker`. A copy starts with a `mkdir`, so the
replacement succeeds exactly if both deletions leave nothing, and that is decided by the symbolic links in the
checkout: each must still lead to a file when all the rest of its directory is gone (`Replaceable`), because a
directory may list it last.
-/

namespace Hand2

open FileTree

section Replace

variable {maxLinks : Nat}

/-- **What can be replaced**: nothing or a directory, whose links all lead to a file by ways that do not depend
    on anything else in it. -/
structure Replaceable (maxLinks : Nat) (fs : FileSystem) (d : List CString) : Prop where
  real : fs.entry d = none ∨ fs.entry d = some .dir
  links : ∀ p, d <+: p → IsLink fs p → LeadsToFile maxLinks (fs.only d p) p

/-! ## One deletion -/

/-- All links in a directory lead to files. -/
def LinksToFiles (maxLinks : Nat) (fs : FileSystem) (d : List CString) : Prop :=
  ∀ p, d <+: p → IsLink fs p → LeadsToFile maxLinks fs p

theorem Replaceable.linksToFiles {fs : FileSystem} {d : List CString} (h : Replaceable maxLinks fs d) :
    LinksToFiles maxLinks fs d :=
  fun p hp hlink => (h.links p hp hlink).mono Tree.only_le

theorem IsLink.mono {fs fs' : FileSystem} (hle : fs ≤ fs') {p : List CString} (h : IsLink fs p) : IsLink fs' p := by
  obtain ⟨absolute, target, h⟩ := h
  exact ⟨absolute, target, hle p _ h⟩

/-- A link that leads to a file leads to no directory, also when something is gone. -/
theorem LinksToFiles.ne_dir {fs fs' : FileSystem} {d : List CString} (h : LinksToFiles maxLinks fs d)
    (hle : fs' ≤ fs) {p : List CString} (hp : d <+: p) (hlink : IsLink fs' p) :
    stat maxLinks fs' (pathOf p) ≠ some .dir := by
  intro hdir
  obtain ⟨content, hfile⟩ := h p hp (hlink.mono hle)
  rw [stat_mono hle hdir] at hfile
  exact absurd hfile (by simp)

theorem LinksToFiles.tame {fs fs' : FileSystem} {d : List CString} (h : LinksToFiles maxLinks fs d)
    (hle : fs' ≤ fs) (hd : d ≠ []) (hdir : fs'.entry d = some .dir) : Tame maxLinks fs' d :=
  ⟨hd, hdir, fun _ hp hlink => h.ne_dir hle hp hlink⟩

/-- What is not there, or a file, or a link to one, is not seen as a directory. -/
theorem LinksToFiles.stat_ne_dir {fs fs' : FileSystem} {d : List CString} {n : CString}
    (h : LinksToFiles maxLinks fs (d ++ [n])) (hle : fs' ≤ fs) (hdir : fs'.entry d = some .dir)
    (hn : fs'.entry (d ++ [n]) ≠ some .dir) : stat maxLinks fs' (pathOf (d ++ [n])) ≠ some .dir := by
  cases he : fs'.entry (d ++ [n]) with
  | none =>
      unfold stat
      rw [resolve_free maxLinks hdir he, Option.bind_some, he]
      simp
  | some e =>
      cases e with
      | dir => exact absurd he hn
      | file content =>
          rw [stat_place he rfl]
          simp
      | link absolute target => exact h.ne_dir hle (List.prefix_refl _) ⟨absolute, target, he⟩

variable (listing : Listing CString (List UInt8))

/-- What cannot be opened as a directory is left alone. -/
theorem delete_not_dir {fs : FileSystem} {path : FilePath} (fuel : Nat)
    (h : stat maxLinks fs path ≠ some .dir) :
    linuxDeleteDirectory maxLinks listing (fuel + 1) fs path = .ok (false, fs) := by
  rw [linuxDeleteDirectory, opendir_eq_none h]

/-- **One of the two deletions**, if all links lead to files: the directory is emptied but for links, or there
    is none and nothing happens. -/
theorem delete_cases {fs fs' : FileSystem} {d : List CString} {n : CString} {fuel : Nat}
    (h : LinksToFiles maxLinks fs (d ++ [n])) (hle : fs' ≤ fs) (hdir : fs'.entry d = some .dir)
    (hfuel : Shallow fs' (d ++ [n]) (fuel + 1)) :
    ∃ out, linuxDeleteDirectory maxLinks listing (fuel + 1) fs' (pathOf (d ++ [n])) = .ok out ∧
      (fs'.entry (d ++ [n]) = some .dir ∧ Emptied maxLinks fs' (d ++ [n]) out.2 ∨
        fs'.entry (d ++ [n]) ≠ some .dir ∧ out.2 = fs') := by
  by_cases hn : fs'.entry (d ++ [n]) = some .dir
  · obtain ⟨out, hrun, hemptied⟩ := delete_tame listing (fuel + 1) fs' (d ++ [n]) (h.tame hle (by simp) hn) hfuel
    exact ⟨out, hrun, Or.inl ⟨hn, hemptied⟩⟩
  · exact ⟨_, delete_not_dir listing fuel (h.stat_ne_dir hle hdir hn), Or.inr ⟨hn, rfl⟩⟩

/-- Nothing at or below a place. -/
theorem without_eq_self {fs : FileSystem} {d : List CString} (hd : d ≠ []) (h : fs.entry d = none) :
    fs.without d hd = fs := by
  refine Tree.ext (funext fun p => ?_)
  rw [Tree.without_entry]
  by_cases hp : d <+: p
  · rw [if_neg (not_not_intro hp), Tree.none_below hp h]
  · rw [if_pos hp]

/-- An emptied directory that is gone is all that is gone. -/
theorem Emptied.eq_without {fs fs' : FileSystem} {d : List CString} (h : Emptied maxLinks fs d fs') (hd : d ≠ [])
    (hgone : fs'.entry d = none) : fs' = fs.without d hd := by
  refine Tree.ext (funext fun p => ?_)
  rw [Tree.without_entry]
  by_cases hp : d <+: p
  · rw [if_neg (not_not_intro hp), Tree.none_below hp hgone]
  · rw [if_pos hp, h.frame p hp]

/-- **What can be replaced is deleted**, with all that is in it and nothing else. -/
theorem delete_replaceable {fs : FileSystem} {d : List CString} {n : CString} {fuel : Nat}
    (h : Replaceable maxLinks fs (d ++ [n])) (hdir : fs.entry d = some .dir)
    (hfuel : Shallow fs (d ++ [n]) (fuel + 1)) :
    ∃ out, linuxDeleteDirectory maxLinks listing (fuel + 1) fs (pathOf (d ++ [n])) = .ok out ∧
      out.2 = fs.without (d ++ [n]) (by simp) := by
  obtain ⟨out, hrun, ⟨hn, hemptied⟩ | ⟨hn, hsame⟩⟩ := delete_cases listing h.linksToFiles (le_refl fs) hdir hfuel
  · refine ⟨out, hrun, hemptied.eq_without (by simp) ?_⟩
    by_contra hleft
    obtain ⟨p, hp, hlink, hno⟩ := hemptied.leftover hleft
    exact hno (h.links p hp (hlink.mono hemptied.le))
  · refine ⟨out, hrun, ?_⟩
    rw [hsame, without_eq_self _ (h.real.resolve_right hn)]

/-! ## The four calls -/

/-- The two deletions and the two copies of a run. -/
theorem replaceTests_runs {fuel : Nat} {fs fs' : FileSystem} {dir templateDir : FilePath}
    (h : replaceTests maxLinks listing fuel fs dir templateDir = .ok fs') :
    ∃ test docker out : Bool × FileSystem,
      linuxDeleteDirectory maxLinks listing fuel fs (dir ++ [.name testName]) = .ok test ∧
      linuxDeleteDirectory maxLinks listing fuel test.2 (dir ++ [.name dockerName]) = .ok docker ∧
      Keeps docker.2 out.2 ∧ out.2 = fs' := by
  obtain ⟨test, htest, h⟩ := Loops.bind_eq_ok h
  obtain ⟨docker, hdocker, h⟩ := Loops.bind_eq_ok h
  obtain ⟨copy, hcopy, h⟩ := Loops.bind_eq_ok h
  obtain ⟨out, hout, h⟩ := Loops.bind_eq_ok h
  injection h with h
  exact ⟨test, docker, out, htest, hdocker,
    (copy_keeps listing fuel _ _ _ _ hcopy).trans (copy_keeps listing fuel _ _ _ _ hout), h⟩

theorem testName_ne_dockerName : testName ≠ dockerName := by decide

/-- The two directories of a checkout are apart. -/
theorem apart_names (d : List CString) : Apart (d ++ [testName]) (d ++ [dockerName]) := by
  constructor
  · intro h
    exact testName_ne_dockerName (child_unique h (List.prefix_refl _))
  · intro h
    exact testName_ne_dockerName (child_unique (List.prefix_refl _) h)

/-- The tests of a checkout are those of the template. -/
def TestsReplaced (fs fs' : FileSystem) (student template : List CString) : Prop :=
  SameTree fs' (student ++ [testName]) fs (template ++ [testName]) ∧
  SameTree fs' (student ++ [dockerName]) fs (template ++ [dockerName])

/-- A plain directory that is not touched is still plain. -/
theorem Plain.of_frame {fs fs' : FileSystem} {d : List CString} (h : Plain fs d)
    (hsame : ∀ p, d <+: p → fs'.entry p = fs.entry p) : Plain fs' d := by
  refine ⟨by rw [hsame d (List.prefix_refl d), h.dir], ?_⟩
  rintro p hp ⟨absolute, target, hlink⟩
  exact h.no_link p hp ⟨absolute, target, by rw [← hsame p hp, hlink]⟩

/-- **The replacement works** on what can be replaced. -/
theorem replaceTests_replaceable {fs : FileSystem} {student template : List CString}
    (hstudent : fs.entry student = some .dir) (htest : Plain fs (template ++ [testName]))
    (hdocker : Plain fs (template ++ [dockerName])) (hapart : Apart student template)
    (h : Replaceable maxLinks fs (student ++ [testName]))
    (h' : Replaceable maxLinks (fs.without (student ++ [testName]) (by simp)) (student ++ [dockerName]))
    {fuel : Nat} (hfuel : ∀ p, fs.entry p ≠ none → p.length < fuel + 1) :
    ∃ fs', replaceTests maxLinks listing (fuel + 1) fs (pathOf student) (pathOf template) = .ok fs' ∧
      TestsReplaced fs fs' student template := by
  have hpath : ∀ (d : List CString) (n : CString), pathOf d ++ [.name n] = pathOf (d ++ [n]) :=
    fun d n => (pathOf_append d [n]).symm
  have hroot : ∀ n : CString, student ++ [n] ≠ [] := by simp
  -- the deletions
  let fs₁ := fs.without (student ++ [testName]) (hroot testName)
  let fs₂ := fs₁.without (student ++ [dockerName]) (hroot dockerName)
  have hle₁ : fs₁ ≤ fs := Tree.without_le (hroot testName)
  have hle₂ : fs₂ ≤ fs₁ := Tree.without_le (hroot dockerName)
  have hentry₁ : ∀ p, ¬ student ++ [testName] <+: p → fs₁.entry p = fs.entry p :=
    fun p hp => by rw [Tree.without_entry, if_pos hp]
  have hentry₂ : ∀ p, ¬ student ++ [testName] <+: p → ¬ student ++ [dockerName] <+: p →
      fs₂.entry p = fs.entry p := fun p hp hp' => by rw [Tree.without_entry, if_pos hp', hentry₁ p hp]
  obtain ⟨out₁, hrun₁, heq₁⟩ := delete_replaceable listing h hstudent (shallow_of_depth hfuel _)
  have hstudent₁ : fs₁.entry student = some .dir := by rw [hentry₁ _ (child_not_above _ _), hstudent]
  obtain ⟨out₂, hrun₂, heq₂⟩ := delete_replaceable listing h' hstudent₁
    (shallow_of_depth (fun p hp => hfuel p (Tree.ne_none_of_le hle₁ hp)) _)
  -- the template is not touched by them
  have htemplate : ∀ (m : CString) (p : List CString), template ++ [m] <+: p → fs₂.entry p = fs.entry p := by
    intro m p hp
    have hp' : template <+: p := (List.prefix_append template [m]).trans hp
    exact hentry₂ p (fun h => hapart.not_below hp' ((List.prefix_append student _).trans h))
      (fun h => hapart.not_below hp' ((List.prefix_append student _).trans h))
  have hstudent₂ : fs₂.entry student = some .dir := by
    rw [hentry₂ _ (child_not_above _ _) (child_not_above _ _), hstudent]
  have hfree : fs₂.entry (student ++ [testName]) = none := by
    rw [Tree.without_entry, if_pos (apart_names student).2, Tree.without_entry,
      if_neg (not_not_intro (List.prefix_refl _))]
  have hfree' : fs₂.entry (student ++ [dockerName]) = none := by
    rw [Tree.without_entry, if_neg (not_not_intro (List.prefix_refl _))]
  -- the copies
  have hshallow : Shallow fs₂ (template ++ [testName]) (fuel + 1) :=
    shallow_of_depth (fun p hp => hfuel p (Tree.ne_none_of_le (le_trans hle₂ hle₁) hp)) _
  obtain ⟨out₃, hrun₃, hcopied₃⟩ := copy_plain listing (fuel + 1) fs₂ student testName (template ++ [testName])
    hstudent₂ hfree (htest.of_frame (htemplate testName)) (hapart.append _ _) hshallow
  have htemplate₃ : ∀ p, template ++ [dockerName] <+: p → out₃.2.entry p = fs.entry p := by
    intro p hp
    rw [hcopied₃.frame p ((hapart.append [testName] [dockerName]).not_below hp), htemplate dockerName p hp]
  have hshallow₃ : Shallow out₃.2 (template ++ [dockerName]) (fuel + 1) := by
    intro r hr
    rw [htemplate₃ _ (List.prefix_append _ r)] at hr
    exact shallow_of_depth hfuel _ r hr
  obtain ⟨out₄, hrun₄, hcopied₄⟩ := copy_plain listing (fuel + 1) out₃.2 student dockerName (template ++ [dockerName])
    (by rw [hcopied₃.frame _ (child_not_above _ _), hstudent₂])
    (by rw [hcopied₃.frame _ (apart_names student).1, hfree'])
    (hdocker.of_frame htemplate₃) (hapart.append _ _) hshallow₃
  refine ⟨out₄.2, ?_, ?_, ?_⟩
  · unfold replaceTests
    simp only [hpath]
    rw [hrun₁]
    show (linuxDeleteDirectory maxLinks listing (fuel + 1) out₁.2 _ >>= _) = _
    rw [heq₁, hrun₂]
    show (linuxCopyDirectory maxLinks listing (fuel + 1) out₂.2 _ _ >>= _) = _
    rw [heq₂, hrun₃]
    show (linuxCopyDirectory maxLinks listing (fuel + 1) out₃.2 _ _ >>= _) = _
    rw [hrun₄]
    rfl
  · intro r
    rw [hcopied₄.frame _ ((apart_names student).symm.not_below (List.prefix_append _ r)), hcopied₃.same r,
      htemplate testName _ (List.prefix_append _ r)]
  · intro r
    rw [hcopied₄.same r, htemplate₃ _ (List.prefix_append _ r)]

/-! ## What a replacement that works shows -/

/-- Nothing but plain directories is left in the way of the copy. -/
structure Cleared (fs : FileSystem) (d : List CString) : Prop where
  real : fs.entry d = none ∨ fs.entry d = some .dir
  no_link : ∀ p, d <+: p → ¬ IsLink fs p

/-- Since the copies take nothing away, the deletions must have. -/
theorem cleared_of_keeps {fs fs' template : FileSystem} {d q : List CString} (h : Keeps fs fs')
    (hsame : SameTree fs' d template q) (hplain : Plain template q) : Cleared fs d := by
  constructor
  · cases he : fs.entry d with
    | none => exact Or.inl rfl
    | some e =>
        obtain ⟨e', he', hdir, -⟩ := h d e he
        have hroot := hsame []
        rw [List.append_nil, List.append_nil, he', hplain.dir] at hroot
        injection hroot with hroot
        rw [hroot] at hdir
        cases e with
        | dir => exact Or.inr rfl
        | _ => exact absurd hdir (by simp [Entry.isDir])
  · rintro p ⟨r, rfl⟩ ⟨absolute, target, hlink⟩
    obtain ⟨e', he', -, hislink⟩ := h _ _ hlink
    rw [hsame r] at he'
    cases e' with
    | link absolute' target' => exact hplain.no_link _ (List.prefix_append q r) ⟨absolute', target', he'⟩
    | _ => exact absurd hislink (by simp [Entry.isLink])

/-- The two deletions of a run clear the way. -/
structure Clears (maxLinks : Nat) (listing : Listing CString (List UInt8)) (fs : FileSystem)
    (student : List CString) (fuel : Nat) (test docker : Bool × FileSystem) : Prop where
  depth : ∀ p, fs.entry p ≠ none → p.length < fuel + 1
  run_test : linuxDeleteDirectory maxLinks listing (fuel + 1) fs (pathOf (student ++ [testName])) = .ok test
  run_docker : linuxDeleteDirectory maxLinks listing (fuel + 1) test.2 (pathOf (student ++ [dockerName])) = .ok docker
  test : Cleared docker.2 (student ++ [testName])
  docker : Cleared docker.2 (student ++ [dockerName])

variable {listing}

/-- **No link may be stuck**: all of them lead to files. -/
theorem Clears.linksToFiles {fs : FileSystem} {student : List CString} {fuel : Nat} {test docker : Bool × FileSystem}
    (h : Clears maxLinks listing fs student fuel test docker) :
    LinksToFiles maxLinks fs (student ++ [testName]) ∧ LinksToFiles maxLinks fs (student ++ [dockerName]) := by
  have hdeletes : Deletes maxLinks fs docker.2 :=
    (delete_deletes _ _ _ _ h.run_test).trans (delete_deletes _ _ _ _ h.run_docker)
  constructor
  · intro p hp hlink
    by_contra hno
    exact h.test.no_link p hp (hdeletes.stuck p ⟨hlink, hno⟩)
  · intro p hp hlink
    by_contra hno
    exact h.docker.no_link p hp (hdeletes.stuck p ⟨hlink, hno⟩)

/-- What one deletion did, in two cases. -/
def Outcome (maxLinks : Nat) (fs : FileSystem) (d : List CString) (fs' : FileSystem) : Prop :=
  fs.entry d = some .dir ∧ Emptied maxLinks fs d fs' ∨ fs.entry d ≠ some .dir ∧ fs' = fs

theorem Outcome.le {fs fs' : FileSystem} {d : List CString} (h : Outcome maxLinks fs d fs') : fs' ≤ fs := by
  rcases h with ⟨-, h⟩ | ⟨-, h⟩
  · exact h.le
  · exact le_of_eq h

theorem Outcome.frame {fs fs' : FileSystem} {d : List CString} (h : Outcome maxLinks fs d fs') (p : List CString)
    (hp : ¬ d <+: p) : fs'.entry p = fs.entry p := by
  rcases h with ⟨-, h⟩ | ⟨-, h⟩
  · exact h.frame p hp
  · rw [h]

/-- What was cleared was nothing or a directory, and is gone. -/
theorem Outcome.of_cleared {fs fs' : FileSystem} {d : List CString} (h : Outcome maxLinks fs d fs')
    (hd : d ≠ []) (hcleared : Cleared fs' d) :
    (fs.entry d = none ∨ fs.entry d = some .dir) ∧ fs'.entry d = none ∧ fs' = fs.without d hd := by
  rcases h with ⟨hdir, h⟩ | ⟨hdir, h⟩
  · have hgone : fs'.entry d = none := by
      by_contra hleft
      obtain ⟨p, hp, hlink, -⟩ := h.leftover hleft
      exact hcleared.no_link p hp hlink
    exact ⟨Or.inr hdir, hgone, h.eq_without hd hgone⟩
  · have hnone : fs.entry d = none := by
      rw [h] at hcleared
      exact hcleared.real.resolve_right hdir
    exact ⟨Or.inl hnone, by rw [h, hnone], by rw [h, without_eq_self hd hnone]⟩

/-- Both deletions of a run that clears the way. -/
theorem Clears.outcomes {fs : FileSystem} {student : List CString} (hstudent : fs.entry student = some .dir)
    {fuel : Nat} {test docker : Bool × FileSystem} (h : Clears maxLinks listing fs student fuel test docker) :
    Outcome maxLinks fs (student ++ [testName]) test.2 ∧
    Outcome maxLinks test.2 (student ++ [dockerName]) docker.2 ∧ Cleared test.2 (student ++ [testName]) := by
  obtain ⟨htestLinks, hdockerLinks⟩ := h.linksToFiles
  have htest : Outcome maxLinks fs (student ++ [testName]) test.2 := by
    obtain ⟨out, hrun, hout⟩ := delete_cases listing htestLinks (le_refl fs) hstudent (shallow_of_depth h.depth _)
    rw [h.run_test] at hrun
    injection hrun with hrun
    exact hrun ▸ hout
  have hdocker : Outcome maxLinks test.2 (student ++ [dockerName]) docker.2 := by
    have hstudent' : test.2.entry student = some .dir := by
      rw [htest.frame _ (child_not_above _ _), hstudent]
    obtain ⟨out, hrun, hout⟩ := delete_cases listing hdockerLinks htest.le hstudent'
      (shallow_of_depth (fun p hp => h.depth p (Tree.ne_none_of_le htest.le hp)) _)
    rw [h.run_docker] at hrun
    injection hrun with hrun
    exact hrun ▸ hout
  -- the second deletion is not in the way of the first copy
  have hsame : ∀ p, student ++ [testName] <+: p → docker.2.entry p = test.2.entry p :=
    fun p hp => hdocker.frame p ((apart_names student).symm.not_below hp)
  refine ⟨htest, hdocker, ?_, ?_⟩
  · rw [← hsame _ (List.prefix_refl _)]
    exact h.test.real
  · rintro p hp ⟨absolute, target, hlink⟩
    exact h.test.no_link p hp ⟨absolute, target, by rw [hsame p hp, hlink]⟩

/-- A link that came last and is gone leads to a file by a way of its own. -/
theorem leadsToFile_of_last {fs fs' : FileSystem} {d p : List CString} {fuel : Nat} {out : Bool × FileSystem}
    (hlinks : LinksToFiles maxLinks fs d) (hle : fs' ≤ fs) (hd : d ≠ [])
    (hreal : fs'.entry d = none ∨ fs'.entry d = some .dir) (hlast : listing.Last p) (hp : d <+: p)
    (hlink : IsLink fs' p) (hfuel : Shallow fs' d fuel)
    (hrun : linuxDeleteDirectory maxLinks listing fuel fs' (pathOf d) = .ok out) (hgone : out.2.entry d = none) :
    LeadsToFile maxLinks (fs'.only d p) p := by
  have hexists : fs'.entry p ≠ none := by
    obtain ⟨absolute, target, h⟩ := hlink
    rw [h]
    simp
  have hdir : fs'.entry d = some .dir := hreal.resolve_left (Tree.ne_none_above hp hexists)
  obtain ⟨r, rfl⟩ := hp
  have hr : r ≠ [] := by
    rintro rfl
    obtain ⟨absolute, target, h⟩ := hlink
    rw [List.append_nil, hdir] at h
    exact absurd h (by simp)
  exact delete_last listing fuel fs' d r hr hlast (hlinks.tame hle hd hdir) hfuel hlink out hrun hgone

/-- **What clears the way in every order can be replaced.** -/
theorem replaceable_of_clears {fs : FileSystem} {student : List CString} (hstudent : fs.entry student = some .dir)
    (h : ∀ listing, ∃ fuel test docker, Clears maxLinks listing fs student fuel test docker) :
    Replaceable maxLinks fs (student ++ [testName]) ∧
    Replaceable maxLinks (fs.without (student ++ [testName]) (by simp)) (student ++ [dockerName]) := by
  have hne : ∀ n : CString, student ++ [n] ≠ [] := by simp
  refine ⟨⟨?_, ?_⟩, ⟨?_, ?_⟩⟩
  · obtain ⟨fuel, test, docker, hclears⟩ := h (Listing.last [])
    obtain ⟨htest, -, hcleared⟩ := hclears.outcomes hstudent
    exact (htest.of_cleared (hne testName) hcleared).1
  · intro p hp hlink
    -- an order in which the link comes last
    obtain ⟨fuel, test, docker, hclears⟩ := h (Listing.last p)
    obtain ⟨htest, -, hcleared⟩ := hclears.outcomes hstudent
    obtain ⟨hreal, hgone, -⟩ := htest.of_cleared (hne testName) hcleared
    exact leadsToFile_of_last hclears.linksToFiles.1 (le_refl fs) (hne testName) hreal (Listing.last_last p) hp
      hlink (shallow_of_depth hclears.depth _) hclears.run_test hgone
  · obtain ⟨fuel, test, docker, hclears⟩ := h (Listing.last [])
    obtain ⟨htest, hdocker, hcleared⟩ := hclears.outcomes hstudent
    rw [← (htest.of_cleared (hne testName) hcleared).2.2]
    exact (hdocker.of_cleared (hne dockerName) hclears.docker).1
  · intro p hp hlink
    obtain ⟨fuel, test, docker, hclears⟩ := h (Listing.last p)
    obtain ⟨htest, hdocker, hcleared⟩ := hclears.outcomes hstudent
    rw [← (htest.of_cleared (hne testName) hcleared).2.2] at hlink ⊢
    obtain ⟨hreal, hgone, -⟩ := hdocker.of_cleared (hne dockerName) hclears.docker
    exact leadsToFile_of_last hclears.linksToFiles.2 htest.le (hne dockerName) hreal (Listing.last_last p) hp
      hlink (shallow_of_depth (fun p hp => hclears.depth p (Tree.ne_none_of_le htest.le hp)) _)
      hclears.run_docker hgone

/-- In whatever order directories list their entries, the replacement ends, with the tests of the template. -/
def AlwaysReplaced (maxLinks : Nat) (fs : FileSystem) (student template : List CString) : Prop :=
  ∀ listing, ∃ fuel₀, ∀ fuel ≥ fuel₀, ∃ fs',
    replaceTests maxLinks listing fuel fs (pathOf student) (pathOf template) = .ok fs' ∧
    TestsReplaced fs fs' student template

/-- **When the graded tests are the template's**: if and only if both directories can be replaced, `docker` once
    `test` is gone. -/
theorem replaceTests_iff (maxLinks : Nat) (fs : FileSystem) (student template : List CString)
    (hstudent : fs.entry student = some .dir) (htest : Plain fs (template ++ [testName]))
    (hdocker : Plain fs (template ++ [dockerName])) (hapart : Apart student template) :
    AlwaysReplaced maxLinks fs student template ↔
    Replaceable maxLinks fs (student ++ [testName]) ∧
    Replaceable maxLinks (fs.without (student ++ [testName]) (by simp)) (student ++ [dockerName]) := by
  have hpath : ∀ (d : List CString) (n : CString), pathOf d ++ [.name n] = pathOf (d ++ [n]) :=
    fun d n => (pathOf_append d [n]).symm
  obtain ⟨depth, hdepth⟩ := exists_depth fs
  constructor
  · intro h
    apply replaceable_of_clears hstudent
    intro listing
    obtain ⟨fuel₀, hrun⟩ := h listing
    -- enough fuel for the run and for the depth of the tree
    obtain ⟨fs', hok, hsame, hsame'⟩ := hrun (fuel₀ + depth + 1) (by omega)
    obtain ⟨test, docker, out, hrunTest, hrunDocker, hkeeps, rfl⟩ := replaceTests_runs listing hok
    rw [hpath] at hrunTest hrunDocker
    exact ⟨fuel₀ + depth, test, docker, fun p hp => by have := hdepth p hp; omega, hrunTest, hrunDocker,
      cleared_of_keeps hkeeps hsame htest, cleared_of_keeps hkeeps hsame' hdocker⟩
  · rintro ⟨h, h'⟩ listing
    refine ⟨depth + 1, ?_⟩
    intro fuel hfuel
    obtain ⟨fuel, rfl⟩ := Nat.exists_eq_add_of_le' (Nat.le_trans (Nat.succ_pos depth) hfuel)
    exact replaceTests_replaceable listing hstudent htest hdocker hapart h h'
      (fun p hp => by have := hdepth p hp; omega)

end Replace

/-! ## A checkout with one link -/

/-- The most links Linux follows on the way to a file. -/
def linuxMaxLinks : Nat := 40

/-- The places of a template, and of a checkout whose `test` holds one link. -/
def linkedEntries (dangling : Bool) : List (List CString × Entry CString (List UInt8)) :=
  let student := [CString.lit "hw1-bob"]
  let template := [CString.lit "tmpl-hw1"]
  [(student, .dir),
   (student ++ [CString.lit "main.c"], .file [1]),
   (student ++ [testName], .dir),
   (student ++ [testName, CString.lit "l"],
    .link false (if dangling then [.name (CString.lit "nowhere")] else [.parent, .name (CString.lit "main.c")])),
   (template, .dir),
   (template ++ [testName], .dir),
   (template ++ [testName, CString.lit "t.c"], .file [2]),
   (template ++ [dockerName], .dir)]

def linkedCheckout (dangling : Bool) : FileSystem :=
  Tree.ofList (linkedEntries dangling) (by cases dangling <;> decide)

theorem linkedCheckout_link {dangling : Bool} {p : List CString} (h : IsLink (linkedCheckout dangling) p) :
    p = [CString.lit "hw1-bob", testName, CString.lit "l"] := by
  obtain ⟨absolute, target, hlink⟩ := h
  have hp : p ≠ [] := by
    rintro rfl
    exact absurd hlink (by simp [(linkedCheckout dangling).root])
  have hall : ∀ x ∈ linkedEntries dangling, x.2.isLink = true →
      x.1 = [CString.lit "hw1-bob", testName, CString.lit "l"] := by
    cases dangling <;> decide
  exact hall _ (Tree.mem_of_lookup hp hlink) rfl

/-- Its template has no links. -/
theorem linkedCheckout_plain (dangling : Bool) :
    Plain (linkedCheckout dangling) [CString.lit "tmpl-hw1", testName] ∧
    Plain (linkedCheckout dangling) [CString.lit "tmpl-hw1", dockerName] := by
  refine ⟨⟨?_, ?_⟩, ⟨?_, ?_⟩⟩
  · cases dangling <;> decide
  · intro p hp hlink
    rw [linkedCheckout_link hlink] at hp
    exact absurd hp (by decide)
  · cases dangling <;> decide
  · intro p hp hlink
    rw [linkedCheckout_link hlink] at hp
    exact absurd hp (by decide)

theorem linkedCheckout_apart : Apart [CString.lit "hw1-bob"] [CString.lit "tmpl-hw1"] :=
  ⟨by decide, by decide⟩

theorem replaceTests_linked :
    AlwaysReplaced linuxMaxLinks (linkedCheckout false) [CString.lit "hw1-bob"] [CString.lit "tmpl-hw1"] := by
  obtain ⟨htest, hdocker⟩ := linkedCheckout_plain false
  refine (replaceTests_iff linuxMaxLinks (linkedCheckout false) _ _ (by decide) htest hdocker
    linkedCheckout_apart).mpr ⟨⟨Or.inr (by decide), fun p _ hlink => ?_⟩, ⟨Or.inl (by decide), fun p hp hlink => ?_⟩⟩
  · rw [linkedCheckout_link hlink]
    exact ⟨[1], by decide⟩
  · -- there is no `docker` yet
    rw [linkedCheckout_link (hlink.mono (Tree.without_le _))] at hp
    exact absurd hp (by decide)

/-- **A dangling link in `test` keeps the tests of the template out**, in whatever order the directory lists
    it. -/
theorem replaceTests_counterexample :
    (linkedCheckout true).entry [CString.lit "hw1-bob"] = some .dir ∧
    Plain (linkedCheckout true) [CString.lit "tmpl-hw1", testName] ∧
    Plain (linkedCheckout true) [CString.lit "tmpl-hw1", dockerName] ∧
    Apart [CString.lit "hw1-bob"] [CString.lit "tmpl-hw1"] ∧
    ¬ AlwaysReplaced linuxMaxLinks (linkedCheckout true) [CString.lit "hw1-bob"] [CString.lit "tmpl-hw1"] ∧
    ∀ listing fuel fs', replaceTests linuxMaxLinks listing fuel (linkedCheckout true)
        (pathOf [CString.lit "hw1-bob"]) (pathOf [CString.lit "tmpl-hw1"]) = .ok fs' →
      ¬ TestsReplaced (linkedCheckout true) fs' [CString.lit "hw1-bob"] [CString.lit "tmpl-hw1"] := by
  obtain ⟨htest, hdocker⟩ := linkedCheckout_plain true
  have hno : ∀ listing fuel fs', replaceTests linuxMaxLinks listing fuel (linkedCheckout true)
        (pathOf [CString.lit "hw1-bob"]) (pathOf [CString.lit "tmpl-hw1"]) = .ok fs' →
      ¬ TestsReplaced (linkedCheckout true) fs' [CString.lit "hw1-bob"] [CString.lit "tmpl-hw1"] := by
    rintro listing fuel fs' hrun ⟨hsame, -⟩
    obtain ⟨test, docker, out, hrunTest, hrunDocker, hkeeps, rfl⟩ := replaceTests_runs listing hrun
    have hcleared := cleared_of_keeps hkeeps hsame htest
    have hdeletes := (delete_deletes _ _ _ _ hrunTest).trans (delete_deletes _ _ _ _ hrunDocker)
    -- the link leads nowhere, so it is still there
    have hstuck : Stuck linuxMaxLinks (linkedCheckout true) [CString.lit "hw1-bob", testName, CString.lit "l"] := by
      refine ⟨⟨false, [.name (CString.lit "nowhere")], by decide⟩, ?_⟩
      rintro ⟨content, hfile⟩
      have hnothing : stat linuxMaxLinks (linkedCheckout true)
          (pathOf [CString.lit "hw1-bob", testName, CString.lit "l"]) = none := by decide
      rw [hnothing] at hfile
      exact absurd hfile (by simp)
    exact hcleared.no_link _ ⟨[CString.lit "l"], rfl⟩ (hdeletes.stuck _ hstuck)
  refine ⟨by decide, htest, hdocker, linkedCheckout_apart, ?_, hno⟩
  intro h
  obtain ⟨fuel₀, h⟩ := h (Listing.last [])
  obtain ⟨fs', hrun, hsame⟩ := h fuel₀ (Nat.le_refl fuel₀)
  exact hno _ _ _ hrun hsame

end Hand2
