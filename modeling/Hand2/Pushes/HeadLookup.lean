import Hand2.Pushes.Refinement

/-!
# `Pushes.HeadLookup` — a push that is known, and a HEAD that is not

HEAD comes from a request of its own, which may fail and then leaves the zero hash. The first correction compares the
newest push with HEAD all the same, takes the zero hash for a HEAD that was pushed without an event, and answers it in
place of the push. So a known push outlives a failed HEAD lookup only where that correction does not apply.
-/

namespace Hand2

/-- A deciding push of a valid hash is answered by a valid hash if and only if HEAD is one, or neither correction
    applies: its time is not the zero of a time that does not parse, and some push is newer, unless its time is
    negative. -/
theorem scanTimes_valid_iff {cutoff creation t : Int} {head hash : GitCommitHash} {newer : List Mark}
    (older : List Mark) (hnewer : ∀ m ∈ newer, ¬ m.time < cutoff) (ht : t < cutoff) (hvalid : hashIsValid hash = true) :
    hashIsValid (scanTimes cutoff head creation false (newer ++ .push t hash :: older)).1 = true ↔
      hashIsValid head = true ∨ (t ≠ 0 ∧ (0 < t → ∃ m ∈ newer, m.isPush = true)) := by
  rw [scanTimes_fst, standing_push older hnewer ht]
  by_cases hstands : t ≠ 0 ∧ (0 < t → ∃ m ∈ newer, m.isPush = true)
  · -- the push stands, and its hash is valid
    rw [if_pos hstands]
    exact ⟨fun _ => .inr hstands, fun _ => hvalid⟩
  · rw [if_neg hstands]
    exact ⟨.inl, fun h => h.resolve_right hstands⟩

/-- **When a known push outlives the HEAD lookup.** The loops end once the pages of every repository settle it: with an
    answer if all texts fit their buffers, and with the program if one does not. Let the event that decides repository
    `k` be a push of a valid hash at `t`, with only marks in front of it that are too late. Whatever the other
    repositories answer and whatever the HEAD lookup gives, the hash that is returned is valid if and only if HEAD is,
    or the push is of a time that parses and, where that is after the epoch, not the newest one of the branch. -/
theorem deciding_push_valid_iff (api : Api) (repos reqBranches : List CString) (githubToken organization : CString)
    (cutoff : Int) (hlen : reqBranches.length = repos.length) :
    ((∀ k < repos.length, ∃ n, Settles (elem reqBranches k) cutoff (eventPages api repos k) 1 n) →
      ∃ rounds, ∀ fuel, rounds ≤ fuel →
        ((∀ k < repos.length, PushesFit api repos reqBranches githubToken organization cutoff k) →
          ∃ out, retrievePushesBeforeCutoff fuel api repos reqBranches githubToken organization cutoff = .ok out) ∧
        ((∃ k < repos.length, ¬ PushesFit api repos reqBranches githubToken organization cutoff k) →
          retrievePushesBeforeCutoff fuel api repos reqBranches githubToken organization cutoff = .error .exit)) ∧
    ∀ fuel out, retrievePushesBeforeCutoff fuel api repos reqBranches githubToken organization cutoff = .ok out →
      ∀ k < repos.length, ∀ n newer t hash older,
        (∀ j < n, eventPages api repos k (1 + j) ≠ []) →
        marks (elem reqBranches k) (Paged.concat (eventPages api repos k) 1 n) = newer ++ .push t hash :: older →
        (∀ m ∈ newer, ¬ m.time < cutoff) → t < cutoff → hashIsValid hash = true →
        (hashIsValid (out k).1 = true ↔
          hashIsValid (headCommit api repos reqBranches k) = true ∨
            (t ≠ 0 ∧ (0 < t → ∃ m ∈ newer, m.isPush = true))) := by
  constructor
  · exact retrieve_ends api repos reqBranches githubToken organization cutoff hlen
  · intro fuel out hrun k hk n newer t hash older hfull hmarks hnewer ht hvalid
    have hsettles : Settles (elem reqBranches k) cutoff (eventPages api repos k) 1 n := by
      refine ⟨hfull, .inr ⟨.push t hash, ?_, ht⟩⟩
      rw [hmarks]
      simp
    rw [answer_of_retrieve hrun hk hsettles, hmarks]
    exact scanTimes_valid_iff older hnewer ht hvalid

/-- The one push of a repository, before the deadline of the README example. -/
def onePush : List (List CJson) :=
  [[pushEvent "main" "2222222222222222222222222222222222222222" "2024-03-20T08:00:00Z"]]

/-- Its listing, and no answer for its branch. -/
def headlessApi (pages : List (List CJson)) : Api :=
  { demoApi "2024-03-01T00:00:00Z" "1111111111111111111111111111111111111111" pages with
    branch := fun _ _ => none }

/-- With a newer push in front of it the deciding one is answered without any HEAD. -/
theorem deciding_push_valid_iff_headless :
    ∃ rounds, ∀ fuel, rounds ≤ fuel →
      ∃ out, retrievePushesBeforeCutoff fuel (headlessApi demoPages) [CString.lit "hw1-alice"] [CString.lit "main"]
          (CString.lit "ghp_x") (CString.lit "course") 1711036799 = .ok out ∧
        hashIsValid (out 0).1 = true := by
  obtain ⟨hends, hiff⟩ := deciding_push_valid_iff (headlessApi demoPages) [CString.lit "hw1-alice"]
    [CString.lit "main"] (CString.lit "ghp_x") (CString.lit "course") 1711036799 rfl
  have hmarks : marks (CString.lit "main")
      (Paged.concat (eventPages (headlessApi demoPages) [CString.lit "hw1-alice"] 0) 1 2) =
      [.push 1711094400 (initGitCommitHash (CString.lit "1111111111111111111111111111111111111111"))] ++
        .push 1711008000 (initGitCommitHash (CString.lit "2222222222222222222222222222222222222222")) ::
        [.push 1710921600 (initGitCommitHash (CString.lit "3333333333333333333333333333333333333333"))] := by
    decide
  have hsettles : Settles (CString.lit "main") 1711036799
      (eventPages (headlessApi demoPages) [CString.lit "hw1-alice"] 0) 1 2 := ⟨by decide, .inl rfl⟩
  obtain ⟨rounds, hrounds⟩ := hends fun k hk => by
    obtain rfl : k = 0 := Nat.lt_one_iff.mp hk
    exact ⟨2, hsettles⟩
  refine ⟨rounds, fun fuel hfuel => ?_⟩
  obtain ⟨out, hout⟩ := (hrounds fuel hfuel).1 (demoApi_fits (fun _ => rfl) (by decide) _)
  refine ⟨out, hout, ?_⟩
  apply (hiff fuel out hout 0 Nat.zero_lt_one 2 _ _ _ _ hsettles.full hmarks (by decide) (by decide) (by decide)).mpr
  exact .inr ⟨by decide, fun _ => ⟨_, List.mem_cons_self, rfl⟩⟩

/-- The answer for it: nothing is known but the push, and HEAD is the zero hash. -/
theorem onePush_answer :
    ∃ rounds, ∀ fuel, rounds ≤ fuel →
      ∃ out, retrievePushesBeforeCutoff fuel (headlessApi onePush) [CString.lit "hw1-alice"] [CString.lit "main"]
          (CString.lit "ghp_x") (CString.lit "course") 1711036799 = .ok out ∧
        (out 0).1 = GitCommitHash.zero := by
  have hsettles : Settles (CString.lit "main") 1711036799
      (eventPages (headlessApi onePush) [CString.lit "hw1-alice"] 0) 1 1 := ⟨by decide, .inl rfl⟩
  obtain ⟨rounds, hrounds⟩ := retrieve_ends (headlessApi onePush) [CString.lit "hw1-alice"]
    [CString.lit "main"] (CString.lit "ghp_x") (CString.lit "course") 1711036799 rfl fun k hk => by
      obtain rfl : k = 0 := Nat.lt_one_iff.mp hk
      exact ⟨1, hsettles⟩
  refine ⟨rounds, fun fuel hfuel => ?_⟩
  obtain ⟨out, hout⟩ := (hrounds fuel hfuel).1 (demoApi_fits (fun _ => rfl) (by decide) _)
  refine ⟨out, hout, ?_⟩
  rw [answer_of_retrieve hout Nat.zero_lt_one hsettles]
  decide

/-- **A known push replaced by the zero hash**: one push before the cutoff and no answer for the branch. -/
theorem known_push_discarded :
    (∃ t hash, marks (CString.lit "main") onePush.flatten = [.push t hash] ∧ t < 1711036799 ∧
      hashIsValid hash = true) ∧
    ∃ rounds, ∀ fuel, rounds ≤ fuel →
      ∃ out, retrievePushesBeforeCutoff fuel (headlessApi onePush) [CString.lit "hw1-alice"] [CString.lit "main"]
          (CString.lit "ghp_x") (CString.lit "course") 1711036799 = .ok out ∧
        hashIsValid (out 0).1 = false := by
  refine ⟨⟨1710921600, initGitCommitHash (CString.lit "2222222222222222222222222222222222222222"), by decide⟩, ?_⟩
  obtain ⟨rounds, hrounds⟩ := onePush_answer
  refine ⟨rounds, fun fuel hfuel => ?_⟩
  obtain ⟨out, hout, hzero⟩ := hrounds fuel hfuel
  refine ⟨out, hout, ?_⟩
  rw [hzero]
  decide

end Hand2
