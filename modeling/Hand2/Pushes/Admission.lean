import Hand2.Pushes.Refinement
import Hand2.Deadline.Agreement

/-!
# `Pushes.Admission` — what is collected, and when it was pushed

Two readings of "the last pushed commit before the cutoff". First, work pushed late is collected only as
the last resort the program documents: when no push decides, HEAD is taken, whenever it was pushed. Second,
with weekends off, the cutoff is an instant the penalty still admits, but collecting asks for a push
strictly *before* it: the newest push charged at most `cutoff_days` is collected unless it was made in that
very second.
-/

namespace Hand2

open CJson

variable {api : Api} {repos : List CString}

/-! ## Late work -/

/-- `hash` is not the head of a push at or after the cutoff, unless it also is the head of an earlier one. -/
def NoLateWork (cutoff : Int) (history : List Mark) (hash : GitCommitHash) : Prop :=
  ∀ m ∈ history, m = .push m.time hash → cutoff ≤ m.time →
    ∃ m' ∈ history, m' = .push m'.time hash ∧ m'.time < cutoff

instance (cutoff : Int) (history : List Mark) (hash : GitCommitHash) :
    Decidable (NoLateWork cutoff history hash) :=
  inferInstanceAs (Decidable (∀ m ∈ history, m = .push m.time hash → cutoff ≤ m.time →
    ∃ m' ∈ history, m' = .push m'.time hash ∧ m'.time < cutoff))

/-- **Late work is collected as a last resort only.** With HEAD the newest push of the branch, a late head
    is answered only if an early push has it too, or no push decides, and then the answer is HEAD. The
    time of the answer is before the cutoff if the repository was created before it. -/
theorem late_work_only_as_lastResort (reqBranches : List CString) (githubToken organization : CString) (cutoff : Int)
    (h : Listings api repos) (hlen : reqBranches.length = repos.length)
    (hfits : ∀ k < repos.length, PushesFit api repos reqBranches githubToken organization cutoff k) :
    ∃ rounds, ∀ fuel, rounds ≤ fuel →
      ∃ out, retrievePushesBeforeCutoff fuel api repos reqBranches githubToken organization cutoff = .ok out ∧
        ∀ k (hk : k < repos.length),
          HeadIsNewest (headCommit api repos reqBranches k) (h.history reqBranches k hk) →
          (NoLateWork cutoff (h.history reqBranches k hk) (out k).1 ∨
            (LastResort cutoff (h.history reqBranches k hk) ∧
              (out k).1 = headCommit api repos reqBranches k)) ∧
          (creationTime api repos k < cutoff → (out k).2 < cutoff) := by
  obtain ⟨rounds, hrounds⟩ := h.retrieve_ok reqBranches githubToken organization cutoff hlen hfits
  refine ⟨rounds, ?_⟩
  intro fuel hfuel
  obtain ⟨out, hout, hscan⟩ := hrounds fuel hfuel
  refine ⟨out, hout, ?_⟩
  intro k hk hhead
  rw [hscan k hk]
  refine ⟨?_, fun hcreation => simpleScan_time_lt hcreation⟩
  by_cases hlast : LastResort cutoff (h.history reqBranches k hk)
  · exact Or.inr ⟨hlast, simpleScan_lastResort hlast⟩
  · left
    obtain ⟨m, hm, hpush⟩ : ∃ m ∈ (h.history reqBranches k hk).find? (fun m => m.time < cutoff),
        m.isPush = true := by
      by_contra hcon
      exact hlast (fun m hm => by simpa using fun hp => hcon ⟨m, hm, hp⟩)
    cases m with
    | create t    => exact absurd hpush (by simp)
    | push t hash =>
        intro _ _ _ _
        have hanswer : h.scan reqBranches cutoff k hk = (hash, t) := simpleScan_push hhead hm
        rw [hanswer]
        exact ⟨.push t hash, List.mem_of_find?_eq_some hm, rfl, (find?_before_split hm).1⟩

/-- A history with a single push, after the deadline of the README example. -/
def onlyLatePages : List (List CJson) :=
  [[pushEvent "main" "1111111111111111111111111111111111111111" "2024-03-23T08:00:00Z"]]

/-- The same push, to a branch that was created anew since an earlier one. -/
def recreatedPages : List (List CJson) :=
  [[pushEvent "main" "1111111111111111111111111111111111111111" "2024-03-23T08:00:00Z",
    branchEvent "main" "2024-03-21T09:00:00Z",
    pushEvent "main" "2222222222222222222222222222222222222222" "2024-03-20T08:00:00Z"]]

theorem late_work_only_as_lastResort_demo :
    ∃ rounds, ∀ fuel, rounds ≤ fuel →
      ∃ out, retrievePushesBeforeCutoff fuel
          (demoApi "2024-03-01T00:00:00Z" "1111111111111111111111111111111111111111" demoPages)
          [CString.lit "hw1-alice"] [CString.lit "main"] (CString.lit "ghp_x") (CString.lit "course") 1711036799
            = .ok out ∧
        NoLateWork 1711036799 (marks (CString.lit "main") demoPages.flatten) (out 0).1 ∧
        (out 0).2 < 1711036799 := by
  have h := demoApi_listings "2024-03-01T00:00:00Z"
    "1111111111111111111111111111111111111111" [CString.lit "hw1-alice"] demoPages_parse
  obtain ⟨rounds, hrounds⟩ := late_work_only_as_lastResort [CString.lit "main"] (CString.lit "ghp_x")
    (CString.lit "course") 1711036799 h rfl (demoApi_fits (fun _ => rfl) (by decide) _)
  refine ⟨rounds, ?_⟩
  intro fuel hfuel
  obtain ⟨out, hout, hall⟩ := hrounds fuel hfuel
  have hone := hall 0 (by decide)
  rw [demoApi_history h (by decide)] at hone
  obtain ⟨hlate | ⟨hlast, -⟩, htime⟩ := hone (by decide)
  · exact ⟨out, hout, hlate, htime (by decide)⟩
  · exact absurd hlast (by decide)

/-- The history in `pages` is complete and newest first, and still its answer is late work. -/
def AnswersLateWork (head : String) (pages : List (List CJson)) (cutoff : Int) : Prop :=
  NewestFirst (marks (CString.lit "main") pages.flatten) ∧
  HeadIsNewest (initGitCommitHash (CString.lit head)) (marks (CString.lit "main") pages.flatten) ∧
  ∃ rounds, ∀ fuel, rounds ≤ fuel →
    ∃ out, retrievePushesBeforeCutoff fuel (demoApi "2024-03-01T00:00:00Z" head pages)
        [CString.lit "hw1-alice"] [CString.lit "main"] (CString.lit "ghp_x") (CString.lit "course") cutoff = .ok out ∧
      ¬ NoLateWork cutoff (marks (CString.lit "main") pages.flatten) (out 0).1

/-- It is enough that the scan answers it. -/
theorem answersLateWork {head : String} {pages : List (List CJson)} {cutoff : Int}
    (hnewest : NewestFirst (marks (CString.lit "main") pages.flatten))
    (hhead : HeadIsNewest (initGitCommitHash (CString.lit head)) (marks (CString.lit "main") pages.flatten))
    (hpos : ∀ events ∈ pages, ∀ event ∈ events, isString (createdAt event) = true → 0 < eventTime event)
    (hne : ∀ events ∈ pages, events ≠ []) (hfew : pages.length ≤ 8)
    (hlate : ¬ NoLateWork cutoff (marks (CString.lit "main") pages.flatten)
      (simpleScan cutoff (initGitCommitHash (CString.lit head))
        (parseTime (CString.lit "2024-03-01T00:00:00Z") timeZoneUtc0) (marks (CString.lit "main") pages.flatten)).1) :
    AnswersLateWork head pages cutoff := by
  refine ⟨hnewest, hhead, ?_⟩
  obtain ⟨rounds, hrounds⟩ := demoApi_retrieve "2024-03-01T00:00:00Z" head pages cutoff hpos hne hfew
  refine ⟨rounds, ?_⟩
  intro fuel hfuel
  obtain ⟨out, hout, hscan⟩ := hrounds fuel hfuel
  exact ⟨out, hout, by rwa [hscan]⟩

/-- **Both last resorts answer late work**: with nothing pushed before the cutoff, and with the branch
    created again since the last early push. -/
theorem late_work_counterexample :
    AnswersLateWork "1111111111111111111111111111111111111111" onlyLatePages 1711036799 ∧
    AnswersLateWork "1111111111111111111111111111111111111111" recreatedPages 1711036799 := by
  constructor
  · apply answersLateWork <;> decide
  · apply answersLateWork <;> decide

/-! ## The newest push the policy admits -/

/-- The push `(t, hash)` is the newest one of the history whose time satisfies `p`: everything newer is no
    such push, and no such push is later. -/
def IsNewestPush (p : Int → Prop) (history : List Mark) (t : Int) (hash : GitCommitHash) : Prop :=
  (∃ newer older, history = newer ++ .push t hash :: older ∧ p t ∧ ∀ m ∈ newer, m.isPush = true → ¬ p m.time) ∧
  ∀ m ∈ history, m.isPush = true → p m.time → m.time ≤ t

/-- The deciding push is the newest one before the cutoff. -/
theorem isNewestPush_of_find? {cutoff t : Int} {hash : GitCommitHash} {history : List Mark}
    (horder : NewestFirst history)
    (h : history.find? (fun m => m.time < cutoff) = some (.push t hash)) :
    IsNewestPush (fun time => time < cutoff) history t hash := by
  obtain ⟨ht, newer, older, rfl, hnewer⟩ := find?_before_split h
  refine ⟨⟨newer, older, rfl, ht, fun m hm _ => hnewer m hm⟩, ?_⟩
  intro m hm _ hlt
  rcases List.mem_append.mp hm with hin | hin
  · exact absurd hlt (hnewer m hin)
  · rcases List.mem_cons.mp hin with rfl | hin
    · exact Int.le_refl _
    · exact (List.pairwise_cons.mp (List.pairwise_append.mp horder).2.1).1 m hin

/-- On the pushes of the history, equivalent conditions have the same newest push. -/
theorem IsNewestPush.congr {p q : Int → Prop} {history : List Mark} {t : Int} {hash : GitCommitHash}
    (h : IsNewestPush p history t hash)
    (hiff : ∀ m ∈ history, m.isPush = true → (p m.time ↔ q m.time)) : IsNewestPush q history t hash := by
  obtain ⟨⟨newer, older, rfl, ht, hnewer⟩, hmax⟩ := h
  refine ⟨⟨newer, older, rfl, ?_, ?_⟩, ?_⟩
  · exact (hiff (.push t hash) (by simp) rfl).mp ht
  · intro m hm hp hq
    exact hnewer m hm hp ((hiff m (List.mem_append_left _ hm) hp).mpr hq)
  · intro m hm hp hq
    exact hmax m hm hp ((hiff m hm hp).mpr hq)

/-- The submission is charged at most `n` late days, with weekends off. -/
def Admitted (deadline n t : Int) : Prop :=
  ∃ late, calculateLateSubmissionDay deadline t 0 = .ok late ∧ late ≤ n

/-- Being pushed before the cutoff means being admitted, and not in the second of the cutoff. -/
theorem lt_calculateCutoff_iff {deadline n t : Int} (hn : 0 ≤ n) (hcut : CutoffInRange deadline n 0)
    (hlate : LateInRange deadline t) :
    t < calculateCutoff deadline n 0 ↔
      Admitted deadline n t ∧ t ≠ calculateCutoff deadline n 0 := by
  obtain ⟨n, rfl⟩ := Int.eq_ofNat_of_zero_le hn
  have hle : Admitted deadline n t ↔ t ≤ calculateCutoff deadline n 0 := by
    rw [Admitted, charged_le_iff hlate, le_calculateCutoff_iff hcut]
    rfl
  rw [hle]
  omega

/-- **Collecting takes the newest push the policy admits**, save one made in the second of the cutoff. -/
theorem collects_newest_admitted (reqBranches : List CString) (githubToken organization : CString)
    (deadline cutoffDays : Int) (hn : 0 ≤ cutoffDays)
    (hcut : CutoffInRange deadline cutoffDays 0) (h : Listings api repos)
    (hlen : reqBranches.length = repos.length)
    (hfits : ∀ k < repos.length, PushesFit api repos reqBranches githubToken organization
      (calculateCutoff deadline cutoffDays 0) k) :
    ∃ rounds, ∀ fuel, rounds ≤ fuel →
      ∃ out, retrievePushesBeforeCutoff fuel api repos reqBranches githubToken organization
          (calculateCutoff deadline cutoffDays 0) = .ok out ∧
        ∀ k (hk : k < repos.length),
          NewestFirst (h.history reqBranches k hk) → NotRecreated (h.history reqBranches k hk) →
          HeadIsNewest (headCommit api repos reqBranches k) (h.history reqBranches k hk) →
          (∀ m ∈ h.history reqBranches k hk, m.isPush = true → LateInRange deadline m.time) →
          (∃ m ∈ h.history reqBranches k hk, m.isPush = true ∧ Admitted deadline cutoffDays m.time ∧
            m.time ≠ calculateCutoff deadline cutoffDays 0) →
          ∃ t hash, out k = (hash, t) ∧
            IsNewestPush (fun time => Admitted deadline cutoffDays time ∧
              time ≠ calculateCutoff deadline cutoffDays 0) (h.history reqBranches k hk) t hash := by
  obtain ⟨rounds, hrounds⟩ := h.retrieve_ok reqBranches githubToken organization
    (calculateCutoff deadline cutoffDays 0) hlen hfits
  refine ⟨rounds, ?_⟩
  intro fuel hfuel
  obtain ⟨out, hout, hscan⟩ := hrounds fuel hfuel
  refine ⟨out, hout, ?_⟩
  intro k hk horder hcreate hhead hrange hex
  have hiff : ∀ m ∈ h.history reqBranches k hk, m.isPush = true →
      (m.time < calculateCutoff deadline cutoffDays 0 ↔
        Admitted deadline cutoffDays m.time ∧ m.time ≠ calculateCutoff deadline cutoffDays 0) :=
    fun m hm hp => lt_calculateCutoff_iff hn hcut (hrange m hm hp)
  obtain ⟨m, hm, hpush, hadmitted⟩ := hex
  obtain ⟨t, hash, hdec⟩ : ∃ t hash, (h.history reqBranches k hk).find?
      (fun m => m.time < calculateCutoff deadline cutoffDays 0) = some (.push t hash) := by
    cases m with
    | create t    => exact absurd hpush (by simp)
    | push t hash => exact exists_deciding_push hcreate hm ((hiff _ hm rfl).mpr hadmitted)
  refine ⟨t, hash, ?_, ?_⟩
  · rw [hscan k hk]
    exact simpleScan_push hhead hdec
  · exact (isNewestPush_of_find? horder hdec).congr hiff

theorem collects_newest_admitted_demo :
    ∃ rounds, ∀ fuel, rounds ≤ fuel →
      ∃ out, retrievePushesBeforeCutoff fuel
          (demoApi "2024-03-01T00:00:00Z" "1111111111111111111111111111111111111111" demoPages)
          [CString.lit "hw1-alice"] [CString.lit "main"] (CString.lit "ghp_x") (CString.lit "course")
          (calculateCutoff 1711036799 0 0) = .ok out ∧
        ∃ t hash, out 0 = (hash, t) ∧
          IsNewestPush (fun time => Admitted 1711036799 0 time ∧ time ≠ calculateCutoff 1711036799 0 0)
            (marks (CString.lit "main") demoPages.flatten) t hash := by
  have h := demoApi_listings "2024-03-01T00:00:00Z"
    "1111111111111111111111111111111111111111" [CString.lit "hw1-alice"] demoPages_parse
  obtain ⟨rounds, hrounds⟩ := collects_newest_admitted [CString.lit "main"] (CString.lit "ghp_x")
    (CString.lit "course") 1711036799 0 (Int.le_refl 0) (cutoffInRange_readme (Int.le_refl 0) (by decide)) h rfl
    (demoApi_fits (fun _ => rfl) (by decide) _)
  refine ⟨rounds, ?_⟩
  intro fuel hfuel
  obtain ⟨out, hout, hall⟩ := hrounds fuel hfuel
  refine ⟨out, hout, ?_⟩
  have hone := hall 0 (by decide)
  rw [demoApi_history h (by decide)] at hone
  apply hone (by decide) (by decide) (by decide) (by decide)
  exact ⟨.push 1711008000 (initGitCommitHash (CString.lit "2222222222222222222222222222222222222222")),
    by decide, rfl, ⟨0, by decide, by decide⟩, by decide⟩

/-- A push in the last second of the deadline, and an earlier one. -/
def onTimePages : List (List CJson) :=
  [[pushEvent "main" "1111111111111111111111111111111111111111" "2024-03-21T15:59:59Z",
    pushEvent "main" "2222222222222222222222222222222222222222" "2024-03-20T08:00:00Z"]]

/-- **An on-time push passed over**: with no late day allowed, a push in the very second of the deadline is
    charged nothing, and yet the older push is collected. -/
theorem collects_newest_admitted_counterexample :
    let history := marks (CString.lit "main") onTimePages.flatten
    CutoffInRange 1711036799 0 0 ∧ NewestFirst history ∧ NotRecreated history ∧
    HeadIsNewest (initGitCommitHash (CString.lit "1111111111111111111111111111111111111111")) history ∧
    (∀ m ∈ history, LateInRange 1711036799 m.time) ∧
    ∃ rounds, ∀ fuel, rounds ≤ fuel →
      ∃ out, retrievePushesBeforeCutoff fuel
          (demoApi "2024-03-01T00:00:00Z" "1111111111111111111111111111111111111111" onTimePages)
          [CString.lit "hw1-alice"] [CString.lit "main"] (CString.lit "ghp_x") (CString.lit "course")
          (calculateCutoff 1711036799 0 0) = .ok out ∧
        ¬ IsNewestPush (Admitted 1711036799 0) history (out 0).2 (out 0).1 := by
  refine ⟨cutoffInRange_readme (Int.le_refl 0) (by decide), by decide, by decide, by decide, by decide, ?_⟩
  obtain ⟨rounds, hrounds⟩ := demoApi_retrieve "2024-03-01T00:00:00Z"
    "1111111111111111111111111111111111111111" onTimePages
    (calculateCutoff 1711036799 0 0) (by decide) (by decide) (by decide)
  refine ⟨rounds, ?_⟩
  intro fuel hfuel
  obtain ⟨out, hout, hscan⟩ := hrounds fuel hfuel
  refine ⟨out, hout, ?_⟩
  intro hnewest
  -- the push in the second of the deadline is admitted, and newer than the answer
  have hle := hnewest.2
    (.push 1711036799 (initGitCommitHash (CString.lit "1111111111111111111111111111111111111111")))
    (by decide) rfl ⟨0, by decide, by decide⟩
  rw [hscan] at hle
  exact absurd hle (by decide)

end Hand2
