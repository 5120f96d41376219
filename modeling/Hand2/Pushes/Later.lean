import Hand2.Pushes.Refinement

/-!
# `Pushes.Later` — collecting again, later

Homework is collected more than once, and in between students push, the listings are cut into other pages and GitHub
lets the oldest events expire. None of it matters as long as the push that decides is still listed. It is only where no
push decides that the answer follows HEAD.
-/

namespace Hand2

open CJson

/-- A history seen again: new marks are not before the cutoff, and some of the oldest are gone. -/
structure SeenAgain (cutoff : Int) (kept expired late marks marks' : List Mark) : Prop where
  before : marks = kept ++ expired
  after : marks' = late ++ kept
  late : ∀ m ∈ late, ¬ m.time < cutoff

section Scan

variable {cutoff creation creation' : Int} {head head' : GitCommitHash} {kept expired late marks marks' : List Mark}

/-- What decides a history decides it when it is seen again. -/
theorem SeenAgain.find? (h : SeenAgain cutoff kept expired late marks marks') {m : Mark}
    (hm : kept.find? (fun m => m.time < cutoff) = some m) :
    marks.find? (fun m => m.time < cutoff) = some m ∧ marks'.find? (fun m => m.time < cutoff) = some m := by
  have hlate : late.find? (fun m => decide (m.time < cutoff)) = none :=
    List.find?_eq_none.mpr fun m hm => by simpa using h.late m hm
  rw [h.before, h.after, List.find?_append, List.find?_append, hm, hlate]
  exact ⟨rfl, rfl⟩

/-- A push that decides and is still listed gives its own head and time, before and after. -/
theorem SeenAgain.simpleScan_eq (h : SeenAgain cutoff kept expired late marks marks') (hhead : HeadIsNewest head marks)
    (hhead' : HeadIsNewest head' marks') (hdecides : ¬ LastResort cutoff kept) :
    simpleScan cutoff head' creation' marks' = simpleScan cutoff head creation marks := by
  have hpush : ∃ t hash, kept.find? (fun m => m.time < cutoff) = some (.push t hash) := by
    unfold LastResort at hdecides
    push Not at hdecides
    obtain ⟨m, hm, hpush⟩ := hdecides
    cases m with
    | push t hash => exact ⟨t, hash, hm⟩
    | create t    => exact absurd rfl hpush
  obtain ⟨t, hash, hpush⟩ := hpush
  obtain ⟨hfind, hfind'⟩ := h.find? hpush
  rw [simpleScan_push hhead hfind, simpleScan_push hhead' hfind']

/-- Where no push decides and nothing has expired the answer stays the same exactly if HEAD does. -/
theorem SeenAgain.simpleScan_eq_iff (h : SeenAgain cutoff kept [] late marks marks') (hlast : LastResort cutoff kept) :
    simpleScan cutoff head' creation marks' = simpleScan cutoff head creation marks ↔ head' = head := by
  have hmarks : marks = kept := by rw [h.before, List.append_nil]
  have hlate : late.find? (fun m => decide (m.time < cutoff)) = none :=
    List.find?_eq_none.mpr fun m hm => by simpa using h.late m hm
  have hfind : marks'.find? (fun m => m.time < cutoff) = marks.find? (fun m => m.time < cutoff) := by
    rw [h.after, List.find?_append, hlate, hmarks, Option.none_or]
  have htime : (simpleScan cutoff head' creation marks').2 = (simpleScan cutoff head creation marks).2 := by
    unfold simpleScan
    rw [hfind]
    cases hm : marks.find? (fun m => m.time < cutoff) with
    | none   => rfl
    | some m =>
        cases m with
        | create t    => rfl
        | push t hash => exact absurd (hlast _ (hmarks ▸ hm)) (by simp)
  have hlast' : LastResort cutoff marks' := by
    unfold LastResort
    rw [hfind, hmarks]
    exact hlast
  rw [Prod.ext_iff, simpleScan_lastResort hlast', simpleScan_lastResort (hmarks ▸ hlast)]
  exact and_iff_left htime

end Scan

section Repositories

variable {api api' : Api} {repos : List CString}

/-- **Collecting again.** Let the events of every repository be listed twice, with pushes from the cutoff on in between
    and with other pages, and let HEAD be the newest push that is listed. Then the commit and the time of a repository
    are the same again if the push that decided is still listed, or, where none did, exactly if HEAD is the same. -/
theorem collecting_again (h : Listings api repos) (h' : Listings api' repos) (reqBranches : List CString)
    (githubToken organization : CString) (cutoff : Int) (hlen : reqBranches.length = repos.length)
    (hfits : ∀ k < repos.length, PushesFit api repos reqBranches githubToken organization cutoff k)
    (hfits' : ∀ k < repos.length, PushesFit api' repos reqBranches githubToken organization cutoff k) :
    ∃ rounds, ∀ fuel, rounds ≤ fuel → ∃ out out',
      retrievePushesBeforeCutoff fuel api repos reqBranches githubToken organization cutoff = .ok out ∧
      retrievePushesBeforeCutoff fuel api' repos reqBranches githubToken organization cutoff = .ok out' ∧
      ∀ k (hk : k < repos.length) (kept expired late : List Mark),
        SeenAgain cutoff kept expired late (h.history reqBranches k hk) (h'.history reqBranches k hk) →
        HeadIsNewest (headCommit api repos reqBranches k) (h.history reqBranches k hk) →
        HeadIsNewest (headCommit api' repos reqBranches k) (h'.history reqBranches k hk) →
        creationTime api' repos k = creationTime api repos k →
        (¬ LastResort cutoff kept → out' k = out k) ∧
          (LastResort cutoff kept → expired = [] →
            (out' k = out k ↔ headCommit api' repos reqBranches k = headCommit api repos reqBranches k)) := by
  obtain ⟨rounds, hrounds⟩ := h.retrieve_ok reqBranches githubToken organization cutoff hlen hfits
  obtain ⟨rounds', hrounds'⟩ := h'.retrieve_ok reqBranches githubToken organization cutoff hlen hfits'
  refine ⟨max rounds rounds', fun fuel hfuel => ?_⟩
  obtain ⟨out, hout, hscan⟩ := hrounds fuel (Nat.le_trans (Nat.le_max_left ..) hfuel)
  obtain ⟨out', hout', hscan'⟩ := hrounds' fuel (Nat.le_trans (Nat.le_max_right ..) hfuel)
  refine ⟨out, out', hout, hout', ?_⟩
  intro k hk kept expired late hagain hhead hhead' hcreation
  rw [hscan k hk, hscan' k hk, Listings.scan, Listings.scan, hcreation]
  constructor
  · exact hagain.simpleScan_eq hhead hhead'
  · rintro hlast rfl
    exact hagain.simpleScan_eq_iff hlast

end Repositories

/-- Before and after a late push, the oldest push having expired. -/
def pagesBefore : List (List CJson) :=
  [[pushEvent "main" "2222222222222222222222222222222222222222" "2024-03-21T08:00:00Z"],
   [pushEvent "main" "3333333333333333333333333333333333333333" "2024-03-20T08:00:00Z"]]

def pagesAfter : List (List CJson) :=
  [[pushEvent "main" "1111111111111111111111111111111111111111" "2024-03-22T08:00:00Z",
    pushEvent "main" "2222222222222222222222222222222222222222" "2024-03-21T08:00:00Z"]]

theorem pagesBefore_parse : ∀ events ∈ pagesBefore, ∀ event ∈ events,
    isString (createdAt event) = true → 0 < eventTime event := by decide

theorem pagesAfter_parse : ∀ events ∈ pagesAfter, ∀ event ∈ events,
    isString (createdAt event) = true → 0 < eventTime event := by decide

/-- The push on the day before the cutoff, the one before it, and the one after. -/
def keptMarks : List Mark := marks (CString.lit "main") (pagesBefore.flatten.take 1)

def expiredMarks : List Mark := marks (CString.lit "main") (pagesBefore.flatten.drop 1)

def lateMarks : List Mark := marks (CString.lit "main") (pagesAfter.flatten.take 1)

theorem seenAgain_pages : SeenAgain 1711036799 keptMarks expiredMarks lateMarks
    (marks (CString.lit "main") pagesBefore.flatten) (marks (CString.lit "main") pagesAfter.flatten) where
  before := by decide
  after := by decide
  late := by decide

theorem headIsNewest_pages :
    HeadIsNewest (initGitCommitHash (CString.lit "2222222222222222222222222222222222222222"))
        (marks (CString.lit "main") pagesBefore.flatten) ∧
      HeadIsNewest (initGitCommitHash (CString.lit "1111111111111111111111111111111111111111"))
        (marks (CString.lit "main") pagesAfter.flatten) := by
  decide

/-- HEAD and the creation time of the only repository. -/
theorem demoApi_head (created head : String) (pages : List (List CJson)) :
    headCommit (demoApi created head pages) [CString.lit "hw1-alice"] [CString.lit "main"] 0
      = initGitCommitHash (CString.lit head) := rfl

theorem demoApi_creation (created head : String) (pages : List (List CJson)) :
    creationTime (demoApi created head pages) [CString.lit "hw1-alice"] 0
      = parseTime (CString.lit created) timeZoneUtc0 := rfl

theorem collecting_again_expired :
    ∃ rounds, ∀ fuel, rounds ≤ fuel → ∃ out out',
      retrievePushesBeforeCutoff fuel (demoApi "2024-03-01T00:00:00Z" "2222222222222222222222222222222222222222"
        pagesBefore) [CString.lit "hw1-alice"] [CString.lit "main"] (CString.lit "ghp_x") (CString.lit "course")
        1711036799 = .ok out ∧
      retrievePushesBeforeCutoff fuel (demoApi "2024-03-01T00:00:00Z" "1111111111111111111111111111111111111111"
        pagesAfter) [CString.lit "hw1-alice"] [CString.lit "main"] (CString.lit "ghp_x") (CString.lit "course")
        1711036799 = .ok out' ∧
      out' 0 = out 0 := by
  have h := demoApi_listings "2024-03-01T00:00:00Z" "2222222222222222222222222222222222222222"
    [CString.lit "hw1-alice"] pagesBefore_parse
  have h' := demoApi_listings "2024-03-01T00:00:00Z" "1111111111111111111111111111111111111111"
    [CString.lit "hw1-alice"] pagesAfter_parse
  obtain ⟨rounds, hrounds⟩ := collecting_again h h' [CString.lit "main"] (CString.lit "ghp_x") (CString.lit "course")
    1711036799 rfl (demoApi_fits (fun _ => rfl) (by decide) _) (demoApi_fits (fun _ => rfl) (by decide) _)
  refine ⟨rounds, fun fuel hfuel => ?_⟩
  obtain ⟨out, out', hout, hout', hagain⟩ := hrounds fuel hfuel
  refine ⟨out, out', hout, hout', ?_⟩
  have hbefore := demoApi_history h (by decide) [CString.lit "main"] 0 (by decide)
  have hafter := demoApi_history h' (by decide) [CString.lit "main"] 0 (by decide)
  have hkept := hagain 0 (by decide) keptMarks expiredMarks lateMarks
  rw [hbefore, hafter, demoApi_head, demoApi_head, demoApi_creation, demoApi_creation] at hkept
  obtain ⟨hhead, hhead'⟩ := headIsNewest_pages
  exact (hkept seenAgain_pages hhead hhead' rfl).1 (by decide)

end Hand2
