import Hand2.Hash

/-!
# `Pushes.History` — deciding a repository from its event history

What collecting a repository is for, on the history of one branch alone: a list of marks, newest first as
GitHub delivers them, each a push or a creation with its time. `simpleScan` says which commit and which
time the history gives for a cutoff. There is no paging, no batch and no running state here.
-/

namespace Hand2

/-- What an event can mean for the required branch: a push of a head, or the creation of the branch. -/
inductive Mark where
  | push (time : Int) (hash : GitCommitHash)
  | create (time : Int)
  deriving DecidableEq

namespace Mark

def time : Mark → Int
  | .push t _ => t
  | .create t => t

def isPush : Mark → Bool
  | .push _ _ => true
  | .create _ => false

@[simp] theorem time_push (t : Int) (hash : GitCommitHash) : (push t hash).time = t := rfl
@[simp] theorem time_create (t : Int) : (create t).time = t := rfl
@[simp] theorem isPush_push (t : Int) (hash : GitCommitHash) : (push t hash).isPush = true := rfl
@[simp] theorem isPush_create (t : Int) : (create t).isPush = false := rfl

end Mark

/-- **The simple scan.** The first mark before the cutoff decides. A push stands for its own head, unless it
    is the first push of the history and the branch HEAD is something else: then HEAD was pushed without an
    event, and HEAD is taken at the time of the push. A creation stands for HEAD at its own time. Without
    such a mark the answer is HEAD at the creation time of the repository. -/
def simpleScan (cutoff : Int) (head : GitCommitHash) (creation : Int) (marks : List Mark) :
    GitCommitHash × Int :=
  match marks.find? (fun m => m.time < cutoff) with
  | none               => (head, creation)
  | some (.create t)   => (head, t)
  | some (.push t hash) =>
      if (marks.takeWhile (fun m => ¬ m.time < cutoff)).all (fun m => ¬ m.isPush) ∧ hash ≠ head then
        (head, t)
      else (hash, t)

/-! ## The scan as a recursion

`scanFrom pushed` is the scan of what is left of a history of which a part without an admissible mark has
been read; `pushed` remembers whether that part held a push. -/

def scanFrom (cutoff : Int) (head : GitCommitHash) (creation : Int) :
    Bool → List Mark → GitCommitHash × Int
  | _,      []                   => (head, creation)
  | pushed, .push t hash :: rest =>
      if t < cutoff then (if pushed = false ∧ hash ≠ head then (head, t) else (hash, t))
      else scanFrom cutoff head creation true rest
  | pushed, .create t :: rest    =>
      if t < cutoff then (head, t) else scanFrom cutoff head creation pushed rest

theorem scanFrom_eq (cutoff : Int) (head : GitCommitHash) (creation : Int) (pushed : Bool)
    (marks : List Mark) :
    scanFrom cutoff head creation pushed marks
      = match marks.find? (fun m => m.time < cutoff) with
        | none               => (head, creation)
        | some (.create t)   => (head, t)
        | some (.push t hash) =>
            if (pushed = false ∧
                (marks.takeWhile (fun m => ¬ m.time < cutoff)).all (fun m => ¬ m.isPush)) ∧
               hash ≠ head then (head, t)
            else (hash, t) := by
  induction marks generalizing pushed with
  | nil => rfl
  | cons m rest ih =>
      cases m with
      | push t hash =>
          by_cases ht : t < cutoff
          · have hnone : (Mark.push t hash :: rest).takeWhile (fun m => decide ¬ m.time < cutoff) = [] :=
              List.takeWhile_cons_of_neg (by simp [ht])
            simp only [scanFrom, ht, if_true, List.find?_cons, Mark.time_push, decide_true, hnone,
              List.all_nil, and_true]
          · -- the push before the deciding mark is read off `pushed = true` on one side, off the prefix
            -- on the other
            rw [scanFrom, if_neg ht, ih]
            simp only [List.find?_cons, List.takeWhile_cons, Mark.time_push, ht, decide_false,
              not_false_eq_true, decide_true, if_true, List.all_cons, Mark.isPush_push]
            simp
      | create t =>
          by_cases ht : t < cutoff
          · simp [scanFrom, ht]
          · rw [scanFrom, if_neg ht, ih]
            simp only [List.find?_cons, List.takeWhile_cons, Mark.time_create, ht, decide_false,
              not_false_eq_true, decide_true, if_true, List.all_cons, Mark.isPush_create]
            simp

/-- A whole history is scanned with no push read yet. -/
theorem simpleScan_eq_scanFrom (cutoff : Int) (head : GitCommitHash) (creation : Int) (marks : List Mark) :
    simpleScan cutoff head creation marks = scanFrom cutoff head creation false marks := by
  rw [scanFrom_eq, simpleScan]
  simp

/-! ## Times that do not parse

A time that does not parse is zero, which the program also takes for "nothing known yet". `scanTimes` is the scan
it makes of any times at all. -/

def scanTimes (cutoff : Int) (head : GitCommitHash) (creation : Int) :
    Bool → List Mark → GitCommitHash × Int
  | _,      []                   => (head, creation)
  | pushed, .push t hash :: rest =>
      if t < cutoff then
        if t = 0 then (head, creation)
        else if 0 < t ∧ pushed = false ∧ hash ≠ head then (head, t) else (hash, t)
      else scanTimes cutoff head creation true rest
  | pushed, .create t :: rest    =>
      if t < cutoff then (if t = 0 then (head, creation) else (head, t))
      else scanTimes cutoff head creation pushed rest

/-- Where all times are positive it is the scan above. -/
theorem scanTimes_eq_scanFrom {cutoff : Int} {head : GitCommitHash} {creation : Int} {pushed : Bool}
    {marks : List Mark} (hpos : ∀ m ∈ marks, 0 < m.time) :
    scanTimes cutoff head creation pushed marks = scanFrom cutoff head creation pushed marks := by
  induction marks generalizing pushed with
  | nil => rfl
  | cons m rest ih =>
      have hrest : ∀ m ∈ rest, 0 < m.time := fun m hm => hpos m (List.mem_cons_of_mem _ hm)
      have hm : 0 < m.time := hpos m List.mem_cons_self
      cases m with
      | push t hash =>
          have ht : 0 < t := hm
          rw [scanTimes, scanFrom, ih hrest, if_neg (Int.ne_of_gt ht)]
          simp only [ht, true_and]
      | create t =>
          have ht : 0 < t := hm
          rw [scanTimes, scanFrom, ih hrest, if_neg (Int.ne_of_gt ht)]

/-- What a deciding push comes to, with marks in front of it that are too late. -/
theorem scanTimes_push {cutoff : Int} {head : GitCommitHash} {creation t : Int} {hash : GitCommitHash} {pushed : Bool}
    {newer : List Mark} (older : List Mark) (hnewer : ∀ m ∈ newer, ¬ m.time < cutoff) (ht : t < cutoff) :
    scanTimes cutoff head creation pushed (newer ++ .push t hash :: older)
      = if t = 0 then (head, creation)
        else if 0 < t ∧ (pushed = false ∧ ∀ m ∈ newer, m.isPush = false) ∧ hash ≠ head then (head, t)
        else (hash, t) := by
  induction newer generalizing pushed with
  | nil =>
      rw [List.nil_append, scanTimes, if_pos ht]
      simp only [List.not_mem_nil, false_implies, implies_true, and_true]
  | cons m newer ih =>
      have hlate : ¬ m.time < cutoff := hnewer m List.mem_cons_self
      have hrest : ∀ m ∈ newer, ¬ m.time < cutoff := fun m hm => hnewer m (List.mem_cons_of_mem _ hm)
      cases m with
      | push t' hash' =>
          have hlate' : ¬ t' < cutoff := hlate
          -- a push is newer, on both sides
          rw [List.cons_append, scanTimes, if_neg hlate', ih hrest]
          simp
      | create t' =>
          have hlate' : ¬ t' < cutoff := hlate
          rw [List.cons_append, scanTimes, if_neg hlate', ih hrest]
          simp

/-- Without a deciding push the answer is HEAD, whatever the times. -/
theorem scanTimes_head {cutoff : Int} {head : GitCommitHash} {creation : Int} {pushed : Bool} {marks : List Mark}
    (h : ∀ m ∈ marks.find? (fun m => m.time < cutoff), m.isPush = false) :
    (scanTimes cutoff head creation pushed marks).1 = head := by
  induction marks generalizing pushed with
  | nil => rfl
  | cons m rest ih =>
      rw [List.find?_cons] at h
      by_cases hm : m.time < cutoff
      · rw [decide_eq_true hm] at h
        cases m with
        | push t hash => exact absurd (h _ rfl) (by simp)
        | create t =>
            have ht : t < cutoff := hm
            rw [scanTimes, if_pos ht]
            split <;> rfl
      · rw [decide_eq_false hm] at h
        cases m with
        | push t hash =>
            have ht : ¬ t < cutoff := hm
            rw [scanTimes, if_neg ht]
            exact ih h
        | create t =>
            have ht : ¬ t < cutoff := hm
            rw [scanTimes, if_neg ht]
            exact ih h

/-! ## Histories that tell the whole story -/

/-- The marks come newest first. -/
def NewestFirst (marks : List Mark) : Prop := marks.Pairwise (fun newer older => older.time ≤ newer.time)

/-- The branch HEAD is the head of the newest push, if there is a push at all. -/
def HeadIsNewest (head : GitCommitHash) (marks : List Mark) : Prop :=
  ∀ m ∈ marks.find? Mark.isPush, m = .push m.time head

/-- The branch is created before all of its pushes: nothing newer than a push is a creation. -/
def NotRecreated (marks : List Mark) : Prop :=
  marks.Pairwise (fun newer older => older.isPush = true → newer.isPush = true)

/-- No push decides: the newest mark before the cutoff is a creation, or there is none. -/
def LastResort (cutoff : Int) (marks : List Mark) : Prop :=
  ∀ m ∈ marks.find? (fun m => m.time < cutoff), m.isPush = false

instance (marks : List Mark) : Decidable (NewestFirst marks) :=
  inferInstanceAs (Decidable (marks.Pairwise _))

instance (head : GitCommitHash) (marks : List Mark) : Decidable (HeadIsNewest head marks) :=
  inferInstanceAs (Decidable (∀ m ∈ marks.find? Mark.isPush, m = .push m.time head))

instance (marks : List Mark) : Decidable (NotRecreated marks) :=
  inferInstanceAs (Decidable (marks.Pairwise _))

instance (cutoff : Int) (marks : List Mark) : Decidable (LastResort cutoff marks) :=
  inferInstanceAs (Decidable (∀ m ∈ marks.find? (fun m => m.time < cutoff), m.isPush = false))

/-- What the deciding mark splits a history into. -/
theorem find?_before_split {cutoff : Int} {marks : List Mark} {m : Mark}
    (h : marks.find? (fun m => m.time < cutoff) = some m) :
    m.time < cutoff ∧ ∃ newer older, marks = newer ++ m :: older ∧ ∀ a ∈ newer, ¬ a.time < cutoff := by
  obtain ⟨hm, newer, older, rfl, hnewer⟩ := List.find?_eq_some_iff_append.mp h
  refine ⟨by simpa using hm, newer, older, rfl, ?_⟩
  intro a ha
  simpa using hnewer a ha

/-- What is in front of the deciding mark. -/
theorem takeWhile_before {cutoff : Int} {m : Mark} {newer : List Mark} (older : List Mark) (hm : m.time < cutoff)
    (hnewer : ∀ a ∈ newer, ¬ a.time < cutoff) :
    (newer ++ m :: older).takeWhile (fun m => ¬ m.time < cutoff) = newer := by
  rw [List.takeWhile_append_of_pos (by simpa using hnewer), List.takeWhile_cons_of_neg (by simpa using hm),
    List.append_nil]

/-- **A deciding push stands for itself** when HEAD is the newest push: it is replaced by HEAD only if no
    push is newer, and then it is HEAD. -/
theorem simpleScan_push {cutoff creation t : Int} {head hash : GitCommitHash} {marks : List Mark}
    (hhead : HeadIsNewest head marks)
    (h : marks.find? (fun m => m.time < cutoff) = some (.push t hash)) :
    simpleScan cutoff head creation marks = (hash, t) := by
  rw [simpleScan, h]
  show (if _ then _ else _) = _
  rw [if_neg]
  rintro ⟨hnone, hne⟩
  obtain ⟨ht, newer, older, rfl, hnewer⟩ := find?_before_split h
  rw [takeWhile_before older ht hnewer] at hnone
  have hnone' : ∀ a ∈ newer, ¬ a.isPush = true := by simpa using hnone
  have hfirst : (newer ++ .push t hash :: older).find? Mark.isPush = some (.push t hash) :=
    List.find?_eq_some_iff_append.mpr
      ⟨rfl, newer, older, rfl, fun a ha => by simpa using hnone' a ha⟩
  have := hhead _ hfirst
  injection this with _ hhash
  exact hne hhash

/-- The head of the deciding push, where neither correction replaces it: its time parses, and if that is after the
    epoch, some push is newer. -/
def standing (cutoff : Int) (marks : List Mark) : Option GitCommitHash :=
  match marks.find? (fun m => m.time < cutoff) with
  | some (.push t hash) =>
      if t ≠ 0 ∧ (0 < t → (marks.takeWhile (fun m => ¬ m.time < cutoff)).any Mark.isPush = true) then some hash
      else none
  | _ => none

theorem standing_push {cutoff t : Int} {hash : GitCommitHash} {newer : List Mark} (older : List Mark)
    (hnewer : ∀ m ∈ newer, ¬ m.time < cutoff) (ht : t < cutoff) :
    standing cutoff (newer ++ .push t hash :: older)
      = if t ≠ 0 ∧ (0 < t → ∃ m ∈ newer, m.isPush = true) then some hash else none := by
  have hfind : (newer ++ .push t hash :: older).find? (fun m => m.time < cutoff) = some (.push t hash) :=
    List.find?_eq_some_iff_append.mpr ⟨decide_eq_true ht, newer, older, rfl, by simpa using hnewer⟩
  have hbefore := takeWhile_before (m := .push t hash) older ht hnewer
  simp only [standing, hfind, hbefore, List.any_eq_true]

/-- **The commit of the scan**: what stands, else HEAD. -/
theorem scanTimes_fst (cutoff : Int) (head : GitCommitHash) (creation : Int) (marks : List Mark) :
    (scanTimes cutoff head creation false marks).1 = (standing cutoff marks).getD head := by
  cases hfind : marks.find? (fun m => m.time < cutoff) with
  | none =>
      rw [scanTimes_head (by simp [hfind]), standing, hfind]
      rfl
  | some m =>
      cases m with
      | create t =>
          rw [scanTimes_head (by simp [hfind]), standing, hfind]
          rfl
      | push t hash =>
          obtain ⟨hlt, newer, older, rfl, hnewer⟩ := find?_before_split hfind
          have ht : t < cutoff := hlt
          rw [scanTimes_push older hnewer ht, standing_push older hnewer ht]
          by_cases hzero : t = 0
          · simp [hzero]
          by_cases hnone : 0 < t ∧ ∀ m ∈ newer, m.isPush = false
          · -- replaced by HEAD, unless it is HEAD already
            have hreplaced : ¬ (t ≠ 0 ∧ (0 < t → ∃ m ∈ newer, m.isPush = true)) := by
              rintro ⟨-, h⟩
              obtain ⟨m, hm, hpush⟩ := h hnone.1
              rw [hnone.2 m hm] at hpush
              cases hpush
            rw [if_neg hzero, if_neg hreplaced]
            by_cases hhead : hash = head
            · simp [hhead]
            · rw [if_pos ⟨hnone.1, ⟨rfl, hnone.2⟩, hhead⟩]
              rfl
          · have hstands : 0 < t → ∃ m ∈ newer, m.isPush = true := by
              intro hpos
              by_contra hno
              exact hnone ⟨hpos, fun m hm => by simpa using fun hpush => hno ⟨m, hm, hpush⟩⟩
            rw [if_neg hzero, if_neg fun h => hnone ⟨h.1, h.2.1.2⟩, if_pos ⟨hzero, hstands⟩]
            rfl

/-- Without a deciding push the answer is HEAD. -/
theorem simpleScan_lastResort {cutoff creation : Int} {head : GitCommitHash} {marks : List Mark}
    (h : LastResort cutoff marks) : (simpleScan cutoff head creation marks).1 = head := by
  unfold simpleScan
  cases hm : marks.find? (fun m => m.time < cutoff) with
  | none   => rfl
  | some m =>
      cases m with
      | create t    => rfl
      | push t hash => exact absurd (h _ hm) (by simp)

/-- The time of an answer is before the cutoff if the creation time of the repository is. -/
theorem simpleScan_time_lt {cutoff creation : Int} {head : GitCommitHash} {marks : List Mark}
    (h : creation < cutoff) : (simpleScan cutoff head creation marks).2 < cutoff := by
  unfold simpleScan
  cases hm : marks.find? (fun m => m.time < cutoff) with
  | none   => exact h
  | some m =>
      have ht := (find?_before_split hm).1
      cases m with
      | create t    => exact ht
      | push t hash =>
          show (if _ then (head, t) else (hash, t)).2 < cutoff
          split <;> exact ht

/-- In a branch that was not re-created a push decides as soon as one is early enough. -/
theorem exists_deciding_push {cutoff t : Int} {hash : GitCommitHash} {marks : List Mark}
    (hcreate : NotRecreated marks) (hmem : Mark.push t hash ∈ marks) (ht : t < cutoff) :
    ∃ t' hash', marks.find? (fun m => m.time < cutoff) = some (.push t' hash') := by
  cases hm : marks.find? (fun m => m.time < cutoff) with
  | none   => exact absurd (decide_eq_true ht) (List.find?_eq_none.mp hm _ hmem)
  | some m =>
      obtain ⟨-, newer, older, rfl, hnewer⟩ := find?_before_split hm
      cases m with
      | push t' hash' => exact ⟨t', hash', rfl⟩
      | create t'     =>
          -- the push is not newer than the deciding mark, so the latter is no creation
          rcases List.mem_append.mp hmem with hin | hin
          · exact absurd ht (hnewer _ hin)
          · rcases List.mem_cons.mp hin with heq | hin
            · exact absurd heq (by simp)
            · have hpair := (List.pairwise_cons.mp (List.pairwise_append.mp hcreate).2.1).1 _ hin rfl
              exact absurd hpair (by simp)

end Hand2
