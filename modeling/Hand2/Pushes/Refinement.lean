import Hand2.Pushes.Retrieve
import Hand2.Pushes.History
import Hand2.Library.Paged

/-!
# `Pushes.Refinement` — the batched, paged scan is the simple scan

`retrieve_pushes_before_cutoff` interleaves up to 64 repositories, applies two corrections after *every*
page, and carries the newest push seen so far from page to page. Here each repository is shown to end with
`simpleScan` of its own history. `Lockstep.run_cells` reduces the loops to one repository on its own; there the
invariant `Scanning` says what a page without an admissible event leaves behind: the newest push is either
unknown or not before the cutoff, so the first correction never fires on an undecided repository, and what
the second one wrote is overwritten or already the final answer. It holds of any times (`scanTimes`), also of
those that do not parse. The program is ended by a text that does not fit (`PushesFit`), and by nothing else.
-/

namespace Hand2

open CJson

/-- What an event means for the required branch. -/
def mark? (reqBranch : CString) (event : CJson) : Option Mark :=
  if isPushTo (CString.lit "refs/heads/" ++ reqBranch) event then
    some (.push (eventTime event) (eventHash event))
  else if isBranchCreation reqBranch event || isRepositoryCreation reqBranch event then
    some (.create (eventTime event))
  else none

/-- The history of a branch in a list of events. -/
def marks (reqBranch : CString) (events : List CJson) : List Mark := events.filterMap (mark? reqBranch)

/-- An event that means something has a `created_at` string, and its time is that of the mark. -/
theorem mark?_time {reqBranch : CString} {event : CJson} {m : Mark} (h : mark? reqBranch event = some m) :
    isString (createdAt event) = true ∧ m.time = eventTime event := by
  unfold mark? at h
  split at h
  · next hp =>
      injection h with h; subst h
      simp only [isPushTo, Bool.and_eq_true] at hp
      exact ⟨hp.1.1.2, rfl⟩
  · split at h
    · next hc =>
        injection h with h; subst h
        simp only [isBranchCreation, isRepositoryCreation, Bool.or_eq_true, Bool.and_eq_true] at hc
        exact ⟨hc.elim (fun hb => hb.1.1.2) (fun hr => hr.1.1.2), rfl⟩
    · exact absurd h (by simp)

/-! ## One repository -/

section Repository

variable (reqBranch : CString) (head : GitCommitHash) (creation cutoff : Int)

/-- The state of an undecided repository between two events; `pushed` remembers whether a push was read. -/
structure Scanning (pushed : Bool) (slot : PushSlot) : Prop where
  nonneg : 0 ≤ slot.latestPushTime
  late : slot.latestPushTime = 0 ∨ cutoff ≤ slot.latestPushTime
  noPush : pushed = false → slot.latestPushTime = 0
  somePush : pushed = true → 0 < cutoff → cutoff ≤ slot.latestPushTime
  out : slot.outPushTime = 0 ∨ (slot.outHash = head ∧ slot.outPushTime = creation)

/-- The two corrections after a page. -/
def corrected (slot : PushSlot) : PushSlot := fixNoPush head creation (fixUnreportedHead head cutoff slot)

/-- The answer a slot stands for. -/
def answer (slot : PushSlot) : GitCommitHash × Int := (slot.outHash, slot.outPushTime)

variable {reqBranch head creation cutoff}

/-- What the second correction makes of the first one's outcome. -/
theorem answer_corrected_of_fix {slot : PushSlot} (s' : PushSlot) (hfix : fixUnreportedHead head cutoff slot = s') :
    answer (corrected head creation cutoff slot)
      = if s'.outPushTime = 0 then (head, creation) else (s'.outHash, s'.outPushTime) := by
  unfold corrected fixNoPush
  rw [hfix]
  split <;> rfl

/-- The first correction does nothing while the newest push is unknown or late. -/
theorem fixUnreportedHead_of_late {slot : PushSlot} (h : slot.latestPushTime = 0 ∨ cutoff ≤ slot.latestPushTime) :
    fixUnreportedHead head cutoff slot = slot := by
  unfold fixUnreportedHead
  rw [if_neg]
  rintro ⟨hne, -, hlt⟩
  rcases h with hzero | hle
  · exact hne hzero
  · omega

/-- The first correction leaves an undecided repository alone: no push before the cutoff is known. -/
theorem Scanning.fixUnreportedHead_eq {pushed : Bool} {slot : PushSlot}
    (h : Scanning head creation cutoff pushed slot) : fixUnreportedHead head cutoff slot = slot :=
  fixUnreportedHead_of_late h.late

/-- The second correction writes the last resort, and keeps the repository undecided. -/
theorem Scanning.corrected {pushed : Bool} {slot : PushSlot}
    (h : Scanning head creation cutoff pushed slot) :
    Scanning head creation cutoff pushed (Hand2.corrected head creation cutoff slot) ∧
    answer (Hand2.corrected head creation cutoff slot) = (head, creation) := by
  unfold Hand2.corrected
  rw [h.fixUnreportedHead_eq]
  unfold fixNoPush
  by_cases h0 : slot.outPushTime = 0
  · rw [if_pos h0]
    exact ⟨⟨h.nonneg, h.late, h.noPush, h.somePush, Or.inr ⟨rfl, rfl⟩⟩, rfl⟩
  · rw [if_neg h0]
    rcases h.out with hz | ⟨hh, ht⟩
    · exact absurd hz h0
    · exact ⟨h, by simp only [answer, hh, ht]⟩

/-- A deciding creation: the first correction does not change its answer, the second one where its time is zero. -/
theorem Scanning.decided_create {pushed : Bool} {slot : PushSlot} (t : Int)
    (h : Scanning head creation cutoff pushed slot) :
    answer (Hand2.corrected head creation cutoff { slot with outPushTime := t, outHash := head })
      = if t = 0 then (head, creation) else (head, t) := by
  have hfix : fixUnreportedHead head cutoff { slot with outPushTime := t, outHash := head }
      = { slot with outPushTime := t, outHash := head } := fixUnreportedHead_of_late h.late
  exact answer_corrected_of_fix _ hfix

/-- The slot after the newest-push update of a push `(t, hash)`. -/
def recordPush (t : Int) (hash : GitCommitHash) (slot : PushSlot) : PushSlot :=
  if t > slot.latestPushTime then { slot with latestPushTime := t, latestPushHash := hash } else slot

/-- A push at or after the cutoff keeps the repository undecided, with a push read. -/
theorem Scanning.recordPush {pushed : Bool} {slot : PushSlot} {t : Int} (hash : GitCommitHash)
    (h : Scanning head creation cutoff pushed slot) (hlate : cutoff ≤ t) :
    Scanning head creation cutoff true (Hand2.recordPush t hash slot) := by
  have hnonneg := h.nonneg
  unfold Hand2.recordPush
  split
  · exact ⟨by dsimp only; omega, .inr hlate, fun hc => absurd hc (by simp), fun _ _ => hlate, h.out⟩
  · exact ⟨hnonneg, h.late, fun hc => absurd hc (by simp), fun _ _ => by omega, h.out⟩

/-- A deciding push: the first correction replaces its head by HEAD exactly when it is the first push of
    the history and its head is not HEAD, and its time is one at all; a time of zero the second one takes for
    nothing known. -/
theorem Scanning.decided_push {pushed : Bool} {slot : PushSlot} {t : Int} {hash : GitCommitHash}
    (h : Scanning head creation cutoff pushed slot) (hlt : t < cutoff) :
    answer (Hand2.corrected head creation cutoff
        { Hand2.recordPush t hash slot with outPushTime := t, outHash := hash })
      = if t = 0 then (head, creation)
        else if 0 < t ∧ pushed = false ∧ hash ≠ head then (head, t) else (hash, t) := by
  have hnonneg := h.nonneg
  by_cases hnew : t > slot.latestPushTime
  · -- the newest push is this one, since any other one read is late
    have hlatest : slot.latestPushTime = 0 := h.late.resolve_right (by omega)
    have hpushed : pushed = false := by
      cases pushed with
      | false => rfl
      | true  =>
          have := h.somePush rfl (by omega)
          omega
    have hrec : Hand2.recordPush t hash slot = { slot with latestPushTime := t, latestPushHash := hash } := by
      unfold Hand2.recordPush
      rw [if_pos hnew]
    rw [hrec]
    by_cases hhead : hash = head
    · rw [if_neg (fun hc => hc.2.2 hhead : ¬ (0 < t ∧ pushed = false ∧ hash ≠ head))]
      refine answer_corrected_of_fix ⟨hash, t, t, hash⟩ ?_
      unfold fixUnreportedHead
      rw [if_neg]
      rintro ⟨-, hne, -⟩
      exact hne (compareHash_iff.mpr hhead)
    · rw [if_pos (⟨by omega, hpushed, hhead⟩ : 0 < t ∧ pushed = false ∧ hash ≠ head)]
      refine answer_corrected_of_fix ⟨head, t, t, hash⟩ ?_
      unfold fixUnreportedHead
      rw [if_pos ⟨by dsimp only; omega, fun hc => hhead (compareHash_iff.mp hc), hlt⟩]
  · -- the newest push is an earlier one, or the time is none
    have hrec : Hand2.recordPush t hash slot = slot := by
      unfold Hand2.recordPush
      rw [if_neg hnew]
    have hkeep : ¬ (0 < t ∧ pushed = false ∧ hash ≠ head) := by
      rintro ⟨hpos, hpushed, -⟩
      have := h.noPush hpushed
      omega
    have hfix : fixUnreportedHead head cutoff { slot with outPushTime := t, outHash := hash }
        = { slot with outPushTime := t, outHash := hash } := fixUnreportedHead_of_late h.late
    rw [hrec, if_neg hkeep]
    exact answer_corrected_of_fix _ hfix

/-- **One page.** Either an admissible event decides the repository, and its answer is the scan's; or none on the
    page is admissible, and the scan goes on behind it. -/
theorem eventLoop_scan (reqBranch : CString) (events : List CJson) (rest : List Mark) {pushed : Bool} {slot : PushSlot}
    (h : Scanning head creation cutoff pushed slot) :
    let out := eventLoop (CString.lit "refs/heads/" ++ reqBranch) reqBranch head cutoff events slot
    (out.2 = true ∧ (∃ m ∈ marks reqBranch events, m.time < cutoff) ∧
      answer (corrected head creation cutoff out.1)
        = scanTimes cutoff head creation pushed (marks reqBranch events ++ rest)) ∨
    (out.2 = false ∧ (∀ m ∈ marks reqBranch events, ¬ m.time < cutoff) ∧
      ∃ pushed', Scanning head creation cutoff pushed' out.1 ∧
        scanTimes cutoff head creation pushed (marks reqBranch events ++ rest)
          = scanTimes cutoff head creation pushed' rest) := by
  have later : ∀ {m : Mark} {ms : List Mark}, (∃ m ∈ ms, m.time < cutoff) → ∃ m' ∈ m :: ms, m'.time < cutoff :=
    fun ⟨m', hm', hlt⟩ => ⟨m', List.mem_cons_of_mem _ hm', hlt⟩
  induction events generalizing pushed slot with
  | nil => exact Or.inr ⟨rfl, fun m hm => absurd hm List.not_mem_nil, pushed, h, rfl⟩
  | cons event events ih =>
      by_cases hpush : isPushTo (CString.lit "refs/heads/" ++ reqBranch) event = true
      · have hmark : mark? reqBranch event = some (.push (eventTime event) (eventHash event)) := by
          simp [mark?, hpush]
        have hmarks : marks reqBranch (event :: events)
            = .push (eventTime event) (eventHash event) :: marks reqBranch events := by
          simp [marks, hmark]
        rw [hmarks]
        simp only [eventLoop, if_pos hpush, List.cons_append, scanTimes]
        by_cases hlt : eventTime event < cutoff
        · rw [if_pos hlt, if_pos hlt]
          exact Or.inl ⟨rfl, ⟨_, List.mem_cons_self, hlt⟩, h.decided_push hlt⟩
        · rw [if_neg hlt, if_neg hlt]
          refine (ih (h.recordPush (eventHash event) (by omega))).imp (And.imp_right (And.imp_left later)) ?_
          rintro ⟨hout, hlate, hscan⟩
          exact ⟨hout, List.forall_mem_cons.mpr ⟨hlt, hlate⟩, hscan⟩
      · by_cases hcreate : (isBranchCreation reqBranch event || isRepositoryCreation reqBranch event) = true
        · have hmark : mark? reqBranch event = some (.create (eventTime event)) := by
            simp only [mark?, hpush, hcreate, if_true, if_false, Bool.false_eq_true]
          have hmarks : marks reqBranch (event :: events)
              = .create (eventTime event) :: marks reqBranch events := by
            simp [marks, hmark]
          -- the second and the third branch of the loop do the same
          have hloop : eventLoop (CString.lit "refs/heads/" ++ reqBranch) reqBranch head cutoff
              (event :: events) slot
              = if eventTime event < cutoff then
                  ({ slot with outPushTime := eventTime event, outHash := head }, true)
                else eventLoop (CString.lit "refs/heads/" ++ reqBranch) reqBranch head cutoff events slot := by
            simp only [eventLoop, if_neg hpush]
            by_cases hb : isBranchCreation reqBranch event = true
            · rw [if_pos hb]
            · rw [if_neg hb, if_pos (by simpa [hb] using hcreate)]
          rw [hmarks, hloop]
          simp only [List.cons_append, scanTimes]
          by_cases hlt : eventTime event < cutoff
          · rw [if_pos hlt, if_pos hlt]
            exact Or.inl ⟨rfl, ⟨_, List.mem_cons_self, hlt⟩, h.decided_create (eventTime event)⟩
          · rw [if_neg hlt, if_neg hlt]
            refine (ih h).imp (And.imp_right (And.imp_left later)) ?_
            rintro ⟨hout, hlate, hscan⟩
            exact ⟨hout, List.forall_mem_cons.mpr ⟨hlt, hlate⟩, hscan⟩
        · have hmarks : marks reqBranch (event :: events) = marks reqBranch events := by
            simp [marks, mark?, hpush, hcreate]
          have hcreate' : isBranchCreation reqBranch event = false ∧
              isRepositoryCreation reqBranch event = false := by simpa using hcreate
          rw [hmarks]
          simp only [eventLoop, if_neg hpush, hcreate'.1, hcreate'.2]
          exact ih h

/-! ## All pages of one repository -/

variable (reqBranch head creation cutoff) in
/-- The worker of a repository on its own: a page, then the two corrections. -/
def scanWorker (pages : Nat → List CJson) (page : Nat) (slot : PushSlot) : PushSlot × Bool :=
  let out := eventLoop (CString.lit "refs/heads/" ++ reqBranch) reqBranch head cutoff (pages page) slot
  (corrected head creation cutoff out.1, out.2 || (pages page).isEmpty)

variable (reqBranch cutoff) in
/-- The first `n` pages from `page` settle a repository: none of them is empty, and the next one is, or one of their
    events decides. -/
structure Settles (pages : Nat → List CJson) (page n : Nat) : Prop where
  full : ∀ k < n, pages (page + k) ≠ []
  ends : pages (page + n) = [] ∨ ∃ m ∈ marks reqBranch (Paged.concat pages page n), m.time < cutoff

/-- The history of the pages, one page at a time. -/
theorem marks_concat_succ (reqBranch : CString) (pages : Nat → List CJson) (page n : Nat) :
    marks reqBranch (Paged.concat pages page (n + 1))
      = marks reqBranch (pages page) ++ marks reqBranch (Paged.concat pages (page + 1) n) := by
  rw [Paged.concat_succ, marks, List.filterMap_append]
  rfl

/-- A page that does not decide leaves the rest to the next ones. -/
theorem Settles.next {pages : Nat → List CJson} {page n : Nat} (h : Settles reqBranch cutoff pages page (n + 1))
    (hlate : ∀ m ∈ marks reqBranch (pages page), ¬ m.time < cutoff) :
    Settles reqBranch cutoff pages (page + 1) n := by
  have hshift : ∀ k, page + 1 + k = page + (k + 1) := fun k => by omega
  refine ⟨fun k hk => ?_, ?_⟩
  · rw [hshift]
    exact h.full (k + 1) (Nat.succ_lt_succ hk)
  · rw [hshift]
    refine h.ends.imp id ?_
    rintro ⟨m, hm, hlt⟩
    rw [marks_concat_succ] at hm
    exact ⟨m, (List.mem_append.mp hm).resolve_left fun hin => hlate m hin hlt, hlt⟩

variable (reqBranch cutoff) in
/-- A page behind which no other is asked for: it is empty, or one of its events decides. -/
def LastPage (events : List CJson) : Prop := events = [] ∨ ∃ m ∈ marks reqBranch events, m.time < cutoff

variable (reqBranch cutoff) in
/-- The page `j` behind `page` is asked for. -/
def PageReached (pages : Nat → List CJson) (page j : Nat) : Prop :=
  ∀ i < j, ¬ LastPage reqBranch cutoff (pages (page + i))

theorem PageReached.zero (pages : Nat → List CJson) (page : Nat) : PageReached reqBranch cutoff pages page 0 :=
  fun _ hi => absurd hi (Nat.not_lt_zero _)

/-- Behind the last page none is. -/
theorem PageReached.eq_zero {pages : Nat → List CJson} {page j : Nat} (h : PageReached reqBranch cutoff pages page j)
    (hlast : LastPage reqBranch cutoff (pages page)) : j = 0 := by
  by_contra hj
  exact h 0 (Nat.pos_of_ne_zero hj) hlast

/-- Behind any other page the next one is. -/
theorem pageReached_succ {pages : Nat → List CJson} {page j : Nat} (hnext : ¬ LastPage reqBranch cutoff (pages page)) :
    PageReached reqBranch cutoff pages page (j + 1) ↔ PageReached reqBranch cutoff pages (page + 1) j := by
  have hshift : ∀ i, page + 1 + i = page + (i + 1) := fun i => by omega
  constructor
  · intro h i hi
    rw [hshift]
    exact h (i + 1) (Nat.succ_lt_succ hi)
  · intro h i hi
    cases i with
    | zero   => exact hnext
    | succ i =>
        rw [← hshift]
        exact h i (Nat.lt_of_succ_lt_succ hi)

section Worker

variable {ε : Type} {timeout e : ε} {machine : Nat → PushSlot → Except ε (PushSlot × Bool)} {fits : Nat → Prop}
variable {pages : Nat → List CJson}

variable (reqBranch head creation cutoff) in
/-- The step of a repository is that of its worker where the texts of the page fit, and ends the program where they do
    not. -/
structure StepsLike (e : ε) (machine : Nat → PushSlot → Except ε (PushSlot × Bool)) (fits : Nat → Prop)
    (pages : Nat → List CJson) : Prop where
  ok : ∀ page slot, fits page → machine page slot = .ok (scanWorker reqBranch head creation cutoff pages page slot)
  exit : ∀ page slot, ¬ fits page → machine page slot = .error e

variable (timeout) in
/-- **All pages.** A worker that `n` pages settle ends within `n + 1` rounds: with the answer of the scan over what
    those pages hold if the texts of all pages fit that are asked for, and with the program if some do not. -/
theorem soloRun_scanWorker (hstep : StepsLike reqBranch head creation cutoff e machine fits pages) (n page : Nat)
    {pushed : Bool} {slot : PushSlot} (hpages : Settles reqBranch cutoff pages page n)
    (h : Scanning head creation cutoff pushed slot) :
    ((∀ j, PageReached reqBranch cutoff pages page j → fits (page + j)) →
      ∃ out, Lockstep.soloRun timeout machine (n + 1) page slot = .ok out ∧
        answer out = scanTimes cutoff head creation pushed (marks reqBranch (Paged.concat pages page n))) ∧
    ((∃ j, PageReached reqBranch cutoff pages page j ∧ ¬ fits (page + j)) →
      Lockstep.soloRun timeout machine (n + 1) page slot = .error e) := by
  induction n generalizing page pushed slot with
  | zero =>
      have hpage : pages page = [] := by
        rcases hpages.ends with hempty | ⟨m, hm, -⟩
        · exact hempty
        · exact absurd hm List.not_mem_nil
      constructor
      · intro hfits
        obtain ⟨_, hanswer⟩ := h.corrected
        refine ⟨Hand2.corrected head creation cutoff slot, ?_, hanswer⟩
        rw [Lockstep.soloRun_succ (hstep.ok page slot (hfits 0 (.zero pages page)))]
        simp [scanWorker, hpage, eventLoop]
      · rintro ⟨j, hj, hlong⟩
        obtain rfl := hj.eq_zero (.inl hpage)
        exact Lockstep.soloRun_error (hstep.exit page slot hlong) 0
  | succ n ih =>
      have hfull : pages page ≠ [] := hpages.full 0 (Nat.succ_pos n)
      by_cases hfits : fits page
      case neg =>
        exact ⟨fun hall => absurd (hall 0 (.zero pages page)) hfits,
          fun _ => Lockstep.soloRun_error (hstep.exit page slot hfits) _⟩
      rw [marks_concat_succ, Lockstep.soloRun_succ (hstep.ok page slot hfits)]
      rcases eventLoop_scan reqBranch (pages page)
        (marks reqBranch (Paged.concat pages (page + 1) n)) h
        with ⟨hdone, hdecides, hanswer⟩ | ⟨hdone, hlate, pushed', hinv, hscan⟩
      · rw [if_pos (by simp [scanWorker, hdone])]
        refine ⟨fun _ => ⟨_, rfl, hanswer⟩, ?_⟩
        rintro ⟨j, hj, hlong⟩
        obtain rfl := hj.eq_zero (.inr hdecides)
        exact absurd hfits hlong
      · -- the page is not the last one, so the next one is asked for
        have hnext : ¬ LastPage reqBranch cutoff (pages page) := by
          rintro (hempty | ⟨m, hm, hlt⟩)
          · exact hfull hempty
          · exact hlate m hm hlt
        have hshift : ∀ j, page + 1 + j = page + (j + 1) := fun j => by omega
        rw [if_neg (by simp [scanWorker, hdone, hfull]), hscan]
        obtain ⟨hok, hexit⟩ := ih (page + 1) (hpages.next hlate) hinv.corrected.1
        refine ⟨fun hall => hok fun j hj => ?_, ?_⟩
        · rw [hshift]
          exact hall (j + 1) ((pageReached_succ hnext).mpr hj)
        · rintro ⟨j, hj, hlong⟩
          cases j with
          | zero   => exact absurd hfits hlong
          | succ j => exact hexit ⟨j, (pageReached_succ hnext).mp hj, by rwa [hshift]⟩

/-- Whatever the fuel, a slot that is returned has the answer of the scan. -/
theorem answer_of_soloRun (hne : e ≠ timeout) (hstep : StepsLike reqBranch head creation cutoff e machine fits pages)
    {n fuel page : Nat} {pushed : Bool} {slot out : PushSlot} (hpages : Settles reqBranch cutoff pages page n)
    (h : Scanning head creation cutoff pushed slot)
    (hrun : Lockstep.soloRun timeout machine fuel page slot = .ok out) :
    (∀ j, PageReached reqBranch cutoff pages page j → fits (page + j)) ∧
      answer out = scanTimes cutoff head creation pushed (marks reqBranch (Paged.concat pages page n)) := by
  obtain ⟨hok, hexit⟩ := soloRun_scanWorker timeout hstep n page hpages h
  by_cases hall : ∀ j, PageReached reqBranch cutoff pages page j → fits (page + j)
  · obtain ⟨out', hrun', hanswer⟩ := hok hall
    rw [Lockstep.soloRun_unique hrun hrun']
    exact ⟨hall, hanswer⟩
  · -- the run that returned would have ended with the program
    push Not at hall
    have herror := Lockstep.soloRun_error_mono (Nat.le_max_right fuel (n + 1)) hne (hexit hall)
    rw [Lockstep.soloRun_mono (Nat.le_max_left fuel (n + 1)) hrun] at herror
    cases herror

end Worker

/-- A page in front of pages that settle a repository. -/
theorem Settles.cons {pages : Nat → List CJson} {page n : Nat} (h : Settles reqBranch cutoff pages (page + 1) n)
    (hpage : pages page ≠ []) : Settles reqBranch cutoff pages page (n + 1) := by
  have hshift : ∀ k, page + (k + 1) = page + 1 + k := fun k => by omega
  constructor
  · rintro (_ | k) hk
    · exact hpage
    · rw [hshift]
      exact h.full k (Nat.lt_of_succ_lt_succ hk)
  · rw [hshift]
    refine h.ends.imp id ?_
    rintro ⟨m, hm, hlt⟩
    rw [marks_concat_succ]
    exact ⟨m, List.mem_append_right _ hm, hlt⟩

/-- **A worker that ends was settled**, by a page without events or a mark that decides. -/
theorem settles_of_soloRun {ε : Type} {timeout e : ε} {machine : Nat → PushSlot → Except ε (PushSlot × Bool)}
    {fits : Nat → Prop} {pages : Nat → List CJson}
    (hstep : StepsLike reqBranch head creation cutoff e machine fits pages)
    {fuel page : Nat} {pushed : Bool} {slot out : PushSlot} (h : Scanning head creation cutoff pushed slot)
    (hrun : Lockstep.soloRun timeout machine fuel page slot = .ok out) :
    ∃ n, Settles reqBranch cutoff pages page n := by
  induction fuel generalizing page pushed slot with
  | zero => cases hrun
  | succ fuel ih =>
      by_cases hfits : fits page
      case neg =>
        rw [Lockstep.soloRun_error (hstep.exit page slot hfits)] at hrun
        cases hrun
      rw [Lockstep.soloRun_succ (hstep.ok page slot hfits)] at hrun
      by_cases hempty : pages page = []
      · exact ⟨0, fun k hk => absurd hk (Nat.not_lt_zero k), .inl hempty⟩
      · rcases eventLoop_scan reqBranch (pages page) [] h with ⟨-, ⟨m, hm, hlt⟩, -⟩ | ⟨hdone, -, pushed', hinv, -⟩
        · -- a mark on this page decides
          refine ⟨1, fun k hk => ?_, .inr ⟨m, ?_, hlt⟩⟩
          · obtain rfl : k = 0 := Nat.lt_one_iff.mp hk
            exact hempty
          · rw [marks_concat_succ]
            exact List.mem_append_left _ hm
        · rw [if_neg (by simp [scanWorker, hdone, hempty])] at hrun
          obtain ⟨n, hn⟩ := ih hinv.corrected.1 hrun
          exact ⟨n + 1, hn.cons hempty⟩

variable (head creation cutoff) in
/-- Nothing has been read yet. -/
theorem Scanning.cleared : Scanning head creation cutoff false PushSlot.cleared :=
  ⟨Int.le_refl 0, .inl rfl, fun _ => rfl, fun hc => absurd hc (by simp), .inl rfl⟩

end Repository

/-! ## All repositories -/

section Repositories

/-- The event pages of repository `k`. -/
def eventPages (api : Api) (repos : List CString) (k page : Nat) : List CJson :=
  arrayForEach (api.events (elem repos k) page)

/-- The creation time of repository `k`. -/
def creationTime (api : Api) (repos : List CString) (k : Nat) : Int :=
  Fetch.creationTimeIn (api.repository (elem repos k)) 0

/-- The HEAD commit of the required branch of repository `k`. -/
def headCommit (api : Api) (repos reqBranches : List CString) (k : Nat) : GitCommitHash :=
  Fetch.latestCommitIn (api.branch (elem repos k) (elem reqBranches k)) GitCommitHash.zero

/-- The branch name fits the buffer of `refs/heads/<branch>`. -/
def BranchFits (branch : CString) : Prop := (CString.lit "refs/heads/" ++ branch).length < reqRefSize

instance (branch : CString) : Decidable (BranchFits branch) :=
  inferInstanceAs (Decidable ((CString.lit "refs/heads/" ++ branch).length < reqRefSize))

/-- The texts of a page of repository `k` fit. -/
def PageFits (repos reqBranches : List CString) (githubToken organization : CString) (k page : Nat) : Prop :=
  GetFits githubToken (eventsUrl organization (elem repos k) page) ∧ BranchFits (elem reqBranches k)

/-- **All texts of repository `k` fit their buffers**: those of the requests for its creation time and its HEAD, those
    of the pages of events that are asked for, and the name of its branch. -/
structure PushesFit (api : Api) (repos reqBranches : List CString) (githubToken organization : CString) (cutoff : Int)
    (k : Nat) : Prop where
  repo : GetFits githubToken (Fetch.repoUrl organization (elem repos k))
  branch : GetFits githubToken (Fetch.branchUrl organization (elem repos k) (elem reqBranches k))
  reqRef : BranchFits (elem reqBranches k)
  events : ∀ j, PageReached (elem reqBranches k) cutoff (eventPages api repos k) 1 j →
    GetFits githubToken (eventsUrl organization (elem repos k) (1 + j))

variable {api : Api} {repos reqBranches : List CString} {githubToken organization : CString} {cutoff : Int}

/-- Behind the first two requests that is a matter of the pages. -/
theorem pushesFit_iff {k : Nat} (hrepo : GetFits githubToken (Fetch.repoUrl organization (elem repos k)))
    (hbranch : GetFits githubToken (Fetch.branchUrl organization (elem repos k) (elem reqBranches k))) :
    PushesFit api repos reqBranches githubToken organization cutoff k ↔
      ∀ j, PageReached (elem reqBranches k) cutoff (eventPages api repos k) 1 j →
        PageFits repos reqBranches githubToken organization k (1 + j) := by
  constructor
  · exact fun h j hj => ⟨h.events j hj, h.reqRef⟩
  · exact fun h => ⟨hrepo, hbranch, (h 0 (.zero _ _)).2, fun j hj => (h j hj).1⟩

/-- A page whose texts fit is read as `scanWorker` reads it. -/
theorem pushesStep_ok {times : Nat → Int} {heads : Nat → GitCommitHash} {start i page : Nat}
    (hfits : PageFits repos reqBranches githubToken organization (start + i) page) (slot : PushSlot) :
    pushesStep api repos reqBranches githubToken organization cutoff times heads start i page slot
      = .ok (scanWorker (elem reqBranches (start + i)) (heads (start + i)) (times (start + i)) cutoff
          (eventPages api repos (start + i)) page slot) := by
  unfold pushesStep
  rw [assignGithubGet_ok hfits.1, formatString_ok hfits.2]
  rfl

/-- One whose texts do not fit ends the program. -/
theorem pushesStep_exit {times : Nat → Int} {heads : Nat → GitCommitHash} {start i page : Nat}
    (hlong : ¬ PageFits repos reqBranches githubToken organization (start + i) page) (slot : PushSlot) :
    pushesStep api repos reqBranches githubToken organization cutoff times heads start i page slot
      = .error .exit := by
  unfold pushesStep
  by_cases hget : GetFits githubToken (eventsUrl organization (elem repos (start + i)) page)
  · rw [assignGithubGet_ok hget, formatString_exit (Nat.le_of_not_lt fun hbranch => hlong ⟨hget, hbranch⟩)]
    rfl
  · rw [assignGithubGet_exit hget]
    rfl

variable (api repos) in
/-- What is asked of GitHub's answers: every listing of events ends, and every creation time in it
    parses. -/
structure Listings : Prop where
  ends : ∀ k < repos.length, ∃ n, eventPages api repos k (n + 1) = []
  parses : ∀ k < repos.length, ∀ page, ∀ event ∈ eventPages api repos k page,
    isString (createdAt event) = true → 0 < eventTime event

/-- The history of repository `k`: what the pages before the first empty one mean for its branch. -/
def Listings.history (h : Listings api repos) (reqBranches : List CString) (k : Nat)
    (hk : k < repos.length) : List Mark :=
  marks (elem reqBranches k) (Paged.upToEmpty (fun n => eventPages api repos k (n + 1)) (h.ends k hk))

/-- The answer the simple scan gives for repository `k`. -/
def Listings.scan (h : Listings api repos) (reqBranches : List CString) (cutoff : Int) (k : Nat)
    (hk : k < repos.length) : GitCommitHash × Int :=
  simpleScan cutoff (headCommit api repos reqBranches k) (creationTime api repos k)
    (h.history reqBranches k hk)

variable (api repos reqBranches githubToken organization cutoff)

/-- The pages of repository `k`, once both arrays of last resorts are filled. -/
def pagesStep (start i page : Nat) (slot : PushSlot) : Except Fault (PushSlot × Bool) :=
  pushesStep api repos reqBranches githubToken organization cutoff
    (fun k => if k < repos.length then creationTime api repos k else 0)
    (fun k => if k < repos.length then headCommit api repos reqBranches k else GitCommitHash.zero) start i page slot

/-- The paging loops. -/
def pagingLoops (fuel : Nat) : Except Fault (Nat → PushSlot) :=
  Lockstep.run .outOfFuel (pagesStep api repos reqBranches githubToken organization cutoff) maxWorker repos.length 1
    fuel (fun _ => PushSlot.cleared)

/-- The pages of repository `k` on their own. -/
def pagingAlone (fuel k : Nat) : Except Fault PushSlot :=
  Lockstep.soloRun .outOfFuel (pagesStep api repos reqBranches githubToken organization cutoff 0 k) fuel 1
    PushSlot.cleared

variable {api repos reqBranches githubToken organization cutoff}

theorem pagesStep_zero (start i : Nat) (_ : start + i < repos.length) (page : Nat) (slot : PushSlot) :
    pagesStep api repos reqBranches githubToken organization cutoff start i page slot
      = pagesStep api repos reqBranches githubToken organization cutoff 0 (start + i) page slot := by
  unfold pagesStep pushesStep
  rw [Nat.zero_add]

variable (githubToken organization) in
/-- It is the step of a worker for HEAD and creation time of the repository. -/
theorem pagesStep_stepsLike {k : Nat} (hk : k < repos.length) :
    StepsLike (elem reqBranches k) (headCommit api repos reqBranches k) (creationTime api repos k) cutoff Fault.exit
      (pagesStep api repos reqBranches githubToken organization cutoff 0 k)
      (PageFits repos reqBranches githubToken organization k) (eventPages api repos k) where
  ok page slot hfits := by
    unfold pagesStep
    rw [pushesStep_ok (by rwa [Nat.zero_add]), Nat.zero_add, if_pos hk, if_pos hk]
  exit page slot hlong := pushesStep_exit (by rwa [Nat.zero_add]) slot

variable (api githubToken organization cutoff) in
/-- The two retrievals before the loops, for which there are as many branches as repositories. -/
theorem retrievePushesBeforeCutoff_eq (fuel : Nat) (hlen : reqBranches.length = repos.length) :
    (Fetch.RepoUrlsFit repos githubToken organization → Fetch.BranchUrlsFit repos reqBranches githubToken organization →
      retrievePushesBeforeCutoff fuel api repos reqBranches githubToken organization cutoff
        = (pagingLoops api repos reqBranches githubToken organization cutoff fuel).map
            (fun slots k => answer (slots k))) ∧
    (¬ (Fetch.RepoUrlsFit repos githubToken organization ∧
        Fetch.BranchUrlsFit repos reqBranches githubToken organization) →
      retrievePushesBeforeCutoff fuel api repos reqBranches githubToken organization cutoff = .error .exit) := by
  obtain ⟨htimes, htimes'⟩ :=
    Fetch.retrieveCreationTimes_eq (fun k _ => api.repository (elem repos k)) repos githubToken organization
  obtain ⟨hheads, hheads'⟩ := Fetch.retrieveLatestCommits_eq
    (fun k _ => api.branch (elem repos k) (elem reqBranches k)) repos reqBranches githubToken organization hlen
  unfold retrievePushesBeforeCutoff
  constructor
  · intro hrepos hbranches
    rw [htimes hrepos, hheads hbranches]
    rfl
  · intro hlong
    by_cases hrepos : Fetch.RepoUrlsFit repos githubToken organization
    · rw [htimes hrepos, hheads' fun hbranches => hlong ⟨hrepos, hbranches⟩]
      rfl
    · rw [htimes' hrepos]
      rfl

/-- A repository of a run that returns has run on its own, behind the first two requests. -/
theorem alone_of_retrieve {fuel k : Nat} {out : Nat → GitCommitHash × Int}
    (h : retrievePushesBeforeCutoff fuel api repos reqBranches githubToken organization cutoff = .ok out)
    (hk : k < repos.length) :
    ∃ slot, pagingAlone api repos reqBranches githubToken organization cutoff fuel k = .ok slot ∧
      answer slot = out k := by
  have hlen : reqBranches.length = repos.length := by
    by_contra hne
    unfold retrievePushesBeforeCutoff Fetch.retrieveLatestCommits at h
    rw [if_pos (fun heq => hne heq.symm)] at h
    obtain ⟨times, -, h⟩ := Loops.bind_eq_ok h
    cases h
  obtain ⟨heq, hexit⟩ := retrievePushesBeforeCutoff_eq api githubToken organization cutoff fuel hlen
  by_cases hurls : Fetch.RepoUrlsFit repos githubToken organization ∧
      Fetch.BranchUrlsFit repos reqBranches githubToken organization
  case neg =>
    rw [hexit hurls] at h
    cases h
  rw [heq hurls.1 hurls.2] at h
  cases hslots : pagingLoops api repos reqBranches githubToken organization cutoff fuel with
  | error e =>
      rw [hslots] at h
      cases h
  | ok slots =>
      rw [hslots] at h
      injection h with h
      exact ⟨slots k, Lockstep.soloRun_of_run maxWorker_pos pagesStep_zero hslots hk, congrFun h k⟩

/-- **Whatever is returned is the scan's answer.** If the loops return, the answer for a repository that some pages
    settle is that of the scan over what they hold, no matter what the other repositories list. -/
theorem answer_of_retrieve {fuel k n : Nat} {out : Nat → GitCommitHash × Int}
    (h : retrievePushesBeforeCutoff fuel api repos reqBranches githubToken organization cutoff = .ok out)
    (hk : k < repos.length)
    (hpages : Settles (elem reqBranches k) cutoff (eventPages api repos k) 1 n) :
    out k = scanTimes cutoff (headCommit api repos reqBranches k) (creationTime api repos k) false
      (marks (elem reqBranches k) (Paged.concat (eventPages api repos k) 1 n)) := by
  obtain ⟨slot, halone, hout⟩ := alone_of_retrieve h hk
  rw [← hout]
  exact (answer_of_soloRun (by simp) (pagesStep_stepsLike _ _ hk) hpages
    (Scanning.cleared (headCommit api repos reqBranches k) (creationTime api repos k) cutoff) halone).2

/-- **And every repository was settled.** -/
theorem settles_of_retrieve {fuel k : Nat} {out : Nat → GitCommitHash × Int}
    (h : retrievePushesBeforeCutoff fuel api repos reqBranches githubToken organization cutoff = .ok out)
    (hk : k < repos.length) : ∃ n, Settles (elem reqBranches k) cutoff (eventPages api repos k) 1 n := by
  obtain ⟨slot, halone, -⟩ := alone_of_retrieve h hk
  exact settles_of_soloRun (pagesStep_stepsLike _ _ hk)
    (Scanning.cleared (headCommit api repos reqBranches k) (creationTime api repos k) cutoff) halone

variable (githubToken organization) in
/-- A repository whose pages settle it is done within some rounds. -/
theorem pagingAlone_ends {k : Nat} (hk : k < repos.length)
    (hpages : ∃ n, Settles (elem reqBranches k) cutoff (eventPages api repos k) 1 n) :
    ∃ rounds, ∀ fuel, rounds ≤ fuel →
      ((∀ j, PageReached (elem reqBranches k) cutoff (eventPages api repos k) 1 j →
          PageFits repos reqBranches githubToken organization k (1 + j)) →
        ∃ slot, pagingAlone api repos reqBranches githubToken organization cutoff fuel k = .ok slot) ∧
      (¬ (∀ j, PageReached (elem reqBranches k) cutoff (eventPages api repos k) 1 j →
          PageFits repos reqBranches githubToken organization k (1 + j)) →
        pagingAlone api repos reqBranches githubToken organization cutoff fuel k = .error .exit) := by
  obtain ⟨n, hsettles⟩ := hpages
  obtain ⟨hok, hexit⟩ := soloRun_scanWorker Fault.outOfFuel (pagesStep_stepsLike githubToken organization hk) n 1
    hsettles (Scanning.cleared (headCommit api repos reqBranches k) (creationTime api repos k) cutoff)
  refine ⟨n + 1, fun fuel hfuel => ⟨fun hfits => ?_, fun hlong => ?_⟩⟩
  · obtain ⟨slot, hrun, -⟩ := hok hfits
    exact ⟨slot, Lockstep.soloRun_mono hfuel hrun⟩
  · push Not at hlong
    exact Lockstep.soloRun_error_mono hfuel (by simp) (hexit hlong)

variable (api repos) in
/-- **The loops end** when the pages of every repository settle it: with an answer if all texts fit, and with the
    program if one does not. -/
theorem retrieve_ends (reqBranches : List CString) (githubToken organization : CString) (cutoff : Int)
    (hlen : reqBranches.length = repos.length)
    (hpages : ∀ k < repos.length, ∃ n, Settles (elem reqBranches k) cutoff (eventPages api repos k) 1 n) :
    ∃ rounds, ∀ fuel, rounds ≤ fuel →
      ((∀ k < repos.length, PushesFit api repos reqBranches githubToken organization cutoff k) →
        ∃ out, retrievePushesBeforeCutoff fuel api repos reqBranches githubToken organization cutoff = .ok out) ∧
      ((∃ k < repos.length, ¬ PushesFit api repos reqBranches githubToken organization cutoff k) →
        retrievePushesBeforeCutoff fuel api repos reqBranches githubToken organization cutoff = .error .exit) := by
  obtain ⟨rounds, hrounds⟩ := Lockstep.exists_common_fuel fun k (hk : k < repos.length) =>
    pagingAlone_ends githubToken organization hk (hpages k hk)
  refine ⟨rounds, fun fuel hfuel => ?_⟩
  obtain ⟨heq, hexit⟩ := retrievePushesBeforeCutoff_eq api githubToken organization cutoff fuel hlen
  by_cases hurls : Fetch.RepoUrlsFit repos githubToken organization ∧
      Fetch.BranchUrlsFit repos reqBranches githubToken organization
  case neg =>
    refine ⟨fun hfits => absurd ⟨fun k hk => (hfits k hk).repo, fun k hk => (hfits k hk).branch⟩ hurls, fun _ => ?_⟩
    exact hexit hurls
  obtain ⟨hrepos, hbranches⟩ := hurls
  rw [heq hrepos hbranches]
  obtain ⟨hok, hlong⟩ := Lockstep.run_cells _ maxWorker_pos pagesStep_zero
    (fun k hk => (hrounds fuel hfuel k hk).1) (fun k hk => (hrounds fuel hfuel k hk).2)
  constructor
  · intro hfits
    refine ⟨_, congrArg (Except.map _) (hok fun k hk => ?_)⟩
    exact (pushesFit_iff (hrepos k hk) (hbranches k hk)).mp (hfits k hk)
  · rintro ⟨k, hk, hno⟩
    refine congrArg (Except.map _) (hlong ⟨k, hk, fun hpage => hno ?_⟩)
    exact (pushesFit_iff (hrepos k hk) (hbranches k hk)).mpr hpage

namespace Listings

/-- The pages of a listing that ends settle their repository. -/
theorem settles (h : Listings api repos) (reqBranches : List CString) (cutoff : Int) {k : Nat} (hk : k < repos.length) :
    Settles (elem reqBranches k) cutoff (eventPages api repos k) 1 (Nat.find (h.ends k hk)) := by
  refine ⟨fun j hj => ?_, .inl ?_⟩
  · rw [Nat.add_comm]
    exact Nat.find_min (h.ends k hk) hj
  · rw [Nat.add_comm]
    exact Nat.find_spec (h.ends k hk)

/-- What they hold is the history, in which all times are positive. -/
theorem history_eq (h : Listings api repos) (reqBranches : List CString) {k : Nat} (hk : k < repos.length) :
    marks (elem reqBranches k) (Paged.concat (eventPages api repos k) 1 (Nat.find (h.ends k hk)))
        = h.history reqBranches k hk ∧
      ∀ m ∈ h.history reqBranches k hk, 0 < m.time := by
  have heq : marks (elem reqBranches k) (Paged.concat (eventPages api repos k) 1 (Nat.find (h.ends k hk)))
      = h.history reqBranches k hk := by
    rw [history, Paged.upToEmpty, Paged.concat_shift]
  refine ⟨heq, ?_⟩
  rw [← heq]
  intro m hm
  obtain ⟨event, hevent, hmark⟩ := List.mem_filterMap.mp hm
  obtain ⟨page, -, -, hpage⟩ := Paged.mem_concat.mp hevent
  obtain ⟨hstring, htime⟩ := mark?_time hmark
  rw [htime]
  exact h.parses k hk page event hpage hstring

/-- Where all texts fit the answer is that of the simple scan, repository by repository. -/
theorem retrieve_ok (h : Listings api repos) (reqBranches : List CString) (githubToken organization : CString)
    (cutoff : Int) (hlen : reqBranches.length = repos.length)
    (hfits : ∀ k < repos.length, PushesFit api repos reqBranches githubToken organization cutoff k) :
    ∃ rounds, ∀ fuel, rounds ≤ fuel →
      ∃ out, retrievePushesBeforeCutoff fuel api repos reqBranches githubToken organization cutoff = .ok out ∧
        ∀ k (hk : k < repos.length), out k = h.scan reqBranches cutoff k hk := by
  obtain ⟨rounds, hrounds⟩ := retrieve_ends api repos reqBranches githubToken organization cutoff hlen
    fun k hk => ⟨_, h.settles reqBranches cutoff hk⟩
  refine ⟨rounds, ?_⟩
  intro fuel hfuel
  obtain ⟨out, hout⟩ := (hrounds fuel hfuel).1 hfits
  refine ⟨out, hout, ?_⟩
  intro k hk
  obtain ⟨heq, hpos⟩ := h.history_eq reqBranches hk
  rw [answer_of_retrieve hout hk (h.settles reqBranches cutoff hk), heq, scanTimes_eq_scanFrom hpos,
    ← simpleScan_eq_scanFrom]
  rfl

/-- A text that does not fit ends the program. -/
theorem retrieve_exit (h : Listings api repos) (reqBranches : List CString) (githubToken organization : CString)
    (cutoff : Int) (hlen : reqBranches.length = repos.length)
    (hlong : ∃ k < repos.length, ¬ PushesFit api repos reqBranches githubToken organization cutoff k) :
    ∃ rounds, ∀ fuel, rounds ≤ fuel →
      retrievePushesBeforeCutoff fuel api repos reqBranches githubToken organization cutoff = .error .exit := by
  obtain ⟨rounds, hrounds⟩ := retrieve_ends api repos reqBranches githubToken organization cutoff hlen
    fun k hk => ⟨_, h.settles reqBranches cutoff hk⟩
  exact ⟨rounds, fun fuel hfuel => (hrounds fuel hfuel).2 hlong⟩

end Listings

end Repositories

/-! ## One repository written out

Concrete histories, as GitHub words them: a list of events, delivered in pages of `size`. -/

/-- A push of `head` to `branch`. -/
def pushEvent (branch head time : String) : CJson :=
  .object [(CString.lit "type", .string (CString.lit "PushEvent")),
    (CString.lit "payload", .object [
      (CString.lit "ref", .string (CString.lit "refs/heads/" ++ CString.lit branch)),
      (CString.lit "head", .string (CString.lit head))]),
    (CString.lit "created_at", .string (CString.lit time))]

/-- The creation of `branch`. -/
def branchEvent (branch time : String) : CJson :=
  .object [(CString.lit "type", .string (CString.lit "CreateEvent")),
    (CString.lit "payload", .object [
      (CString.lit "ref", .string (CString.lit branch)),
      (CString.lit "ref_type", .string (CString.lit "branch"))]),
    (CString.lit "created_at", .string (CString.lit time))]

/-- An organisation whose repositories were all created at `created`, have the HEAD commit `head`, and list
    `pages` of events. -/
def demoApi (created head : String) (pages : List (List CJson)) : Api where
  repository _ := some (.object [(CString.lit "created_at", .string (CString.lit created))])
  branch _ _ := some (.object [(CString.lit "commit",
    .object [(CString.lit "sha", .string (CString.lit head))])])
  events _ page := some (.array (pages.getD (page - 1) []))

/-- A listing written out page by page ends, and parses if its events do. -/
theorem demoApi_listings (created head : String) {pages : List (List CJson)} (repos : List CString)
    (hpos : ∀ events ∈ pages, ∀ event ∈ events, isString (createdAt event) = true → 0 < eventTime event) :
    Listings (demoApi created head pages) repos := by
  refine ⟨fun k _ => ⟨pages.length, ?_⟩, ?_⟩
  · show pages.getD (pages.length + 1 - 1) [] = []
    simp
  · intro k _ page event he
    have he' : event ∈ pages.getD (page - 1) [] := he
    by_cases hp : page - 1 < pages.length
    · rw [List.getD_eq_getElem _ _ hp] at he'
      exact hpos _ (List.getElem_mem hp) event he'
    · rw [List.getD_eq_default _ _ (Nat.le_of_not_lt hp)] at he'
      exact absurd he' List.not_mem_nil

/-- Its history is that of its pages, as long as none of them is empty. -/
theorem demoApi_history {created head : String} {pages : List (List CJson)} {repos : List CString}
    (h : Listings (demoApi created head pages) repos) (hne : ∀ events ∈ pages, events ≠ [])
    (reqBranches : List CString) (k : Nat) (hk : k < repos.length) :
    h.history reqBranches k hk = marks (elem reqBranches k) pages.flatten := by
  unfold Listings.history
  congr 1
  rw [Paged.upToEmpty_eq (n := pages.length)]
  · exact Paged.concat_getD pages
  · show pages.getD (pages.length + 1 - 1) [] = []
    simp
  · intro j hj
    show pages.getD (j + 1 - 1) [] ≠ []
    rw [Nat.add_sub_cancel, List.getD_eq_getElem _ _ hj]
    exact hne _ (List.getElem_mem hj)

/-- The texts of the only repository fit, whatever its HEAD. -/
theorem demoApi_fits {api : Api} {pages : List (List CJson)}
    (hpages : ∀ page, eventPages api [CString.lit "hw1-alice"] 0 page = pages.getD (page - 1) [])
    (hfew : pages.length ≤ 8) (cutoff : Int) :
    ∀ k < [CString.lit "hw1-alice"].length, PushesFit api [CString.lit "hw1-alice"] [CString.lit "main"]
      (CString.lit "ghp_x") (CString.lit "course") cutoff k := by
  intro k hk
  obtain rfl : k = 0 := Nat.lt_one_iff.mp hk
  have hurls : ∀ j ≤ 8, GetFits (CString.lit "ghp_x")
      (eventsUrl (CString.lit "course") (CString.lit "hw1-alice") (1 + j)) := by decide +kernel
  refine ⟨by decide +kernel, by decide +kernel, by decide, fun j hj => hurls j ?_⟩
  -- the page behind the last one is empty
  by_contra hlate
  refine hj pages.length (by omega) (.inl ?_)
  rw [hpages]
  simp

/-- The answer for its only repository. -/
theorem demoApi_retrieve (created head : String) (pages : List (List CJson)) (cutoff : Int)
    (hpos : ∀ events ∈ pages, ∀ event ∈ events, isString (createdAt event) = true → 0 < eventTime event)
    (hne : ∀ events ∈ pages, events ≠ []) (hfew : pages.length ≤ 8) :
    ∃ rounds, ∀ fuel, rounds ≤ fuel →
      ∃ out, retrievePushesBeforeCutoff fuel (demoApi created head pages)
          [CString.lit "hw1-alice"] [CString.lit "main"] (CString.lit "ghp_x") (CString.lit "course") cutoff
            = .ok out ∧
        out 0 = simpleScan cutoff (initGitCommitHash (CString.lit head))
          (parseTime (CString.lit created) timeZoneUtc0) (marks (CString.lit "main") pages.flatten) := by
  have h := demoApi_listings created head [CString.lit "hw1-alice"] hpos
  obtain ⟨rounds, hrounds⟩ := h.retrieve_ok [CString.lit "main"] (CString.lit "ghp_x") (CString.lit "course") cutoff rfl
    (demoApi_fits (fun _ => rfl) hfew cutoff)
  refine ⟨rounds, ?_⟩
  intro fuel hfuel
  obtain ⟨out, hout, hscan⟩ := hrounds fuel hfuel
  refine ⟨out, hout, ?_⟩
  rw [hscan 0 (Nat.zero_lt_one), Listings.scan, demoApi_history h hne]
  rfl

section Repositories

variable {api : Api} {repos : List CString}

/-- **The batched, paged scan is the simple scan, repository by repository.** Once every listing ends and
    every creation time parses, the loops terminate. If all texts fit their buffers, the answer for
    a repository is `simpleScan` of its own history, HEAD and creation time, and of nothing else; a text
    that does not fit ends the program. -/
theorem retrievePushesBeforeCutoff_eq_simpleScan (reqBranches : List CString) (githubToken organization : CString)
    (cutoff : Int) (h : Listings api repos) (hlen : reqBranches.length = repos.length) :
    ((∀ k < repos.length, PushesFit api repos reqBranches githubToken organization cutoff k) →
      ∃ rounds, ∀ fuel, rounds ≤ fuel →
        ∃ out, retrievePushesBeforeCutoff fuel api repos reqBranches githubToken organization cutoff = .ok out ∧
          ∀ k (hk : k < repos.length),
            out k = simpleScan cutoff (headCommit api repos reqBranches k) (creationTime api repos k)
              (h.history reqBranches k hk)) ∧
    ((∃ k < repos.length, ¬ PushesFit api repos reqBranches githubToken organization cutoff k) →
      ∃ rounds, ∀ fuel, rounds ≤ fuel →
        retrievePushesBeforeCutoff fuel api repos reqBranches githubToken organization cutoff = .error .exit) :=
  ⟨h.retrieve_ok reqBranches githubToken organization cutoff hlen,
    h.retrieve_exit reqBranches githubToken organization cutoff hlen⟩

/-- A history in two pages: the push of page one is too late, the first of page two counts. -/
def demoPages : List (List CJson) :=
  [[pushEvent "main" "1111111111111111111111111111111111111111" "2024-03-22T08:00:00Z"],
   [pushEvent "main" "2222222222222222222222222222222222222222" "2024-03-21T08:00:00Z",
    pushEvent "main" "3333333333333333333333333333333333333333" "2024-03-20T08:00:00Z"]]

theorem demoPages_parse : ∀ events ∈ demoPages, ∀ event ∈ events,
    isString (createdAt event) = true → 0 < eventTime event := by decide

theorem retrievePushesBeforeCutoff_eq_simpleScan_demo :
    ∃ rounds, ∀ fuel, rounds ≤ fuel →
      ∃ out, retrievePushesBeforeCutoff fuel
          (demoApi "2024-03-01T00:00:00Z" "1111111111111111111111111111111111111111" demoPages)
          [CString.lit "hw1-alice"] [CString.lit "main"] (CString.lit "ghp_x") (CString.lit "course") 1711036799
            = .ok out ∧
        out 0 = (initGitCommitHash (CString.lit "2222222222222222222222222222222222222222"), 1711008000) := by
  have h := demoApi_listings "2024-03-01T00:00:00Z"
    "1111111111111111111111111111111111111111" [CString.lit "hw1-alice"] demoPages_parse
  obtain ⟨rounds, hrounds⟩ := (retrievePushesBeforeCutoff_eq_simpleScan
    [CString.lit "main"] (CString.lit "ghp_x") (CString.lit "course") 1711036799 h rfl).1
    (demoApi_fits (fun _ => rfl) (by decide) _)
  refine ⟨rounds, ?_⟩
  intro fuel hfuel
  obtain ⟨out, hout, hscan⟩ := hrounds fuel hfuel
  refine ⟨out, hout, ?_⟩
  rw [hscan 0 (by decide), demoApi_history h (by decide)]
  decide

end Repositories

end Hand2
