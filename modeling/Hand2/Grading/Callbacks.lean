import Mathlib
import Hand2.Grading.Capture

/-!
# `Grading.Callbacks` — what the grading threads print

`linux_exec_process` and `win32_exec_process` call `on_progression` before they run a command and `on_completion`
behind it, both under one lock that all threads share, and both callbacks of `grade_homework` print. Here the steps of
`Grading.ThreadProc` are split further: a run of a work waits for the lock, prints piece by piece, gives the lock back,
runs its command, and does the same again. Leaving out what is new gives a run of `threadProc` (`erase_run`), so all
that holds there holds here.
-/

namespace Hand2

/-- A callback that a run calls: before its command, or behind it with what the command gave. -/
inductive Callback (ρ : Type) where
  | progression
  | completion (result : ρ)
  deriving DecidableEq

/-- Where a thread is in `linux_exec_process`. -/
inductive CallState (ρ : Type) where
  /-- Before `pthread_mutex_lock`. -/
  | waiting (callback : Callback ρ)
  /-- In the callback, with what it has yet to print. -/
  | calling (callback : Callback ρ) (left : List (List UInt8))
  /-- Between the callbacks. -/
  | executing
  | returning (result : ρ)
  deriving DecidableEq

/-- Where a thread is. -/
inductive GraderState (ρ : Type) where
  | reading
  | swapping (nextToWork : Int)
  | inside (index : Int) (call : CallState ρ)
  | left
  deriving DecidableEq

/-- What the threads share, and where each of them is. -/
structure Graders (τ ρ : Type) where
  nextToWork : Int
  works : Int → RunWork
  /-- Who has `callback_lock`. -/
  lock : Option τ
  output : List (List UInt8)
  thread : τ → GraderState ρ

/-- When the threads are created. -/
def Graders.start {τ ρ : Type} (works : Int → RunWork) : Graders τ ρ := ⟨0, works, none, [], fun _ => .reading⟩

/-- A step of a thread. -/
inductive GraderEvent (τ ρ : Type) where
  | read (t : τ)
  | claim (t : τ) (index : Int)
  | miss (t : τ)
  | lock (t : τ) (index : Int) (callback : Callback ρ)
  | print (t : τ)
  | unlock (t : τ)
  | exec (t : τ) (result : ρ)
  /-- The exit code is stored. -/
  | store (t : τ) (index : Int) (result : ρ)
  deriving DecidableEq

/-- `write_output`: the text, and the end of the line. -/
def writeOutput (text : List UInt8) : List (List UInt8) := [text, [newline]]

/-- `"%s"` of a path that may be a null pointer. -/
def shownPath (path : Option CString) : List UInt8 := (path.getD (CString.lit "(null)")).bytes

/-- `"[%d/%d] "`. -/
def progressOf (index count : Int) : List UInt8 :=
  (CString.lit "[").bytes ++ decimal (index + 1) ++ (CString.lit "/").bytes ++ decimal count ++ (CString.lit "] ").bytes

/-- `grade_homework_on_progression`. -/
def gradeHomeworkOnProgression (index count : Int) (workDir : Option CString) : List (List UInt8) :=
  writeOutput (progressOf index count ++ (CString.lit "Grading '").bytes ++ shownPath workDir ++
    (CString.lit "'").bytes)

/-- `grade_homework_on_completion`. -/
def gradeHomeworkOnCompletion (index count exitCode : Int) (workDir : Option CString) (stderrContent : CString) :
    List (List UInt8) :=
  if exitCode ≠ 0 then
    writeOutput (progressOf index count ++ (CString.lit "Fail '").bytes ++ shownPath workDir ++
      (CString.lit "'\n").bytes ++ stderrContent.bytes)
  else []

section Step

variable {τ ρ : Type} [DecidableEq τ] [DecidableEq ρ]

/-- The runs of works: the exit code of one, and what its command wrote to `stderr`. -/
structure Runs (ρ : Type) where
  exitCode : Int → RunWork → ρ → Int
  stderrContent : ρ → CString

/-- What a callback prints. -/
def Callback.prints (runs : Runs ρ) (workCount index : Int) (work : RunWork) : Callback ρ → List (List UInt8)
  | .progression       => gradeHomeworkOnProgression index workCount (nonEmpty work.workDir)
  | .completion result =>
      gradeHomeworkOnCompletion index workCount (runs.exitCode index work result) (nonEmpty work.workDir)
        (runs.stderrContent result)

/-- Where a thread is behind a callback. -/
def Callback.behind : Callback ρ → CallState ρ
  | .progression       => .executing
  | .completion result => .returning result

def Graders.goto (s : Graders τ ρ) (t : τ) (p : GraderState ρ) : Graders τ ρ :=
  { s with thread := Function.update s.thread t p }

/-- `linux_thread_proc` with `linux_exec_process` in it. -/
def graderStep (runs : Runs ρ) (workCount : Int) (s : Graders τ ρ) : GraderEvent τ ρ → Option (Graders τ ρ)
  | .read t =>
      if s.thread t = .reading then
        some (s.goto t (if s.nextToWork ≠ workCount then .swapping s.nextToWork else .left))
      else none
  | .claim t index =>
      if s.thread t = .swapping index ∧ s.nextToWork = index then
        some { s.goto t (.inside index (.waiting .progression)) with nextToWork := index + 1 }
      else none
  | .miss t =>
      match s.thread t with
      | .swapping nextToWork => if s.nextToWork ≠ nextToWork then some (s.goto t .reading) else none
      | _                    => none
  | .lock t index callback =>
      if s.thread t = .inside index (.waiting callback) ∧ s.lock = none then
        some { s.goto t (.inside index (.calling callback (callback.prints runs workCount index (s.works index)))) with
          lock := some t }
      else none
  | .print t =>
      match s.thread t with
      | .inside index (.calling callback (text :: left)) =>
          some { s.goto t (.inside index (.calling callback left)) with output := s.output ++ [text] }
      | _ => none
  | .unlock t =>
      match s.thread t with
      | .inside index (.calling callback []) => some { s.goto t (.inside index callback.behind) with lock := none }
      | _                                    => none
  | .exec t result =>
      match s.thread t with
      | .inside index .executing => some (s.goto t (.inside index (.waiting (.completion result))))
      | _                        => none
  | .store t index result =>
      if s.thread t = .inside index (.returning result) then
        some { s.goto t .reading with
          works := Function.update s.works index
            { s.works index with exitCode := runs.exitCode index (s.works index) result } }
      else none

end Step

/-! ## What a step does -/

section Cases

variable {τ ρ : Type} [DecidableEq τ] [DecidableEq ρ] {runs : Runs ρ} {workCount : Int} {s s' : Graders τ ρ} {t : τ}

theorem grader_read_cases (h : graderStep runs workCount s (.read t) = some s') :
    s.thread t = .reading ∧
      ((s.nextToWork ≠ workCount ∧ s' = s.goto t (.swapping s.nextToWork))
        ∨ (s.nextToWork = workCount ∧ s' = s.goto t .left)) := by
  obtain ⟨hreading, h⟩ := Option.ite_none_right_eq_some.mp h
  refine ⟨hreading, ?_⟩
  cases Option.some.inj h
  by_cases hnext : s.nextToWork = workCount
  · exact .inr ⟨hnext, by simp [hnext]⟩
  · exact .inl ⟨hnext, by simp [hnext]⟩

theorem grader_claim_cases {index : Int} (h : graderStep runs workCount s (.claim t index) = some s') :
    s.thread t = .swapping index ∧ s.nextToWork = index ∧
      s' = { s.goto t (.inside index (.waiting .progression)) with nextToWork := index + 1 } := by
  obtain ⟨⟨hswapping, hnext⟩, h⟩ := Option.ite_none_right_eq_some.mp h
  exact ⟨hswapping, hnext, (Option.some.inj h).symm⟩

theorem grader_miss_cases (h : graderStep runs workCount s (.miss t) = some s') :
    (∃ n, s.thread t = .swapping n ∧ s.nextToWork ≠ n) ∧ s' = s.goto t .reading := by
  simp only [graderStep] at h
  split at h
  · next n hswapping =>
      obtain ⟨hne, h⟩ := Option.ite_none_right_eq_some.mp h
      exact ⟨⟨n, hswapping, hne⟩, (Option.some.inj h).symm⟩
  · cases h

theorem grader_lock_cases {index : Int} {callback : Callback ρ}
    (h : graderStep runs workCount s (.lock t index callback) = some s') :
    s.thread t = .inside index (.waiting callback) ∧ s.lock = none ∧
      s' = { s.goto t (.inside index (.calling callback (callback.prints runs workCount index (s.works index)))) with
        lock := some t } := by
  obtain ⟨⟨hwaiting, hlock⟩, h⟩ := Option.ite_none_right_eq_some.mp h
  exact ⟨hwaiting, hlock, (Option.some.inj h).symm⟩

theorem grader_print_cases (h : graderStep runs workCount s (.print t) = some s') :
    ∃ index callback text left, s.thread t = .inside index (.calling callback (text :: left)) ∧
      s' = { s.goto t (.inside index (.calling callback left)) with output := s.output ++ [text] } := by
  simp only [graderStep] at h
  split at h
  · next index callback text left hcalling => exact ⟨index, callback, text, left, hcalling, (Option.some.inj h).symm⟩
  · cases h

theorem grader_unlock_cases (h : graderStep runs workCount s (.unlock t) = some s') :
    ∃ index callback, s.thread t = .inside index (.calling callback []) ∧
      s' = { s.goto t (.inside index callback.behind) with lock := none } := by
  simp only [graderStep] at h
  split at h
  · next index callback hcalling => exact ⟨index, callback, hcalling, (Option.some.inj h).symm⟩
  · cases h

theorem grader_exec_cases {result : ρ} (h : graderStep runs workCount s (.exec t result) = some s') :
    ∃ index, s.thread t = .inside index .executing ∧
      s' = s.goto t (.inside index (.waiting (.completion result))) := by
  simp only [graderStep] at h
  split at h
  · next index hexecuting => exact ⟨index, hexecuting, (Option.some.inj h).symm⟩
  · cases h

theorem grader_store_cases {index : Int} {result : ρ}
    (h : graderStep runs workCount s (.store t index result) = some s') :
    s.thread t = .inside index (.returning result) ∧
      s' = { s.goto t .reading with
        works := Function.update s.works index
          { s.works index with exitCode := runs.exitCode index (s.works index) result } } := by
  obtain ⟨hreturning, h⟩ := Option.ite_none_right_eq_some.mp h
  exact ⟨hreturning, (Option.some.inj h).symm⟩

end Cases

/-! ## A run of `threadProc` -/

section Erase

variable {τ ρ : Type} [DecidableEq τ] [DecidableEq ρ] {runs : Runs ρ} {workCount : Int} {s s' : Graders τ ρ}

/-- Where a thread is, its callbacks left out. -/
def GraderState.erase : GraderState ρ → ThreadState
  | .reading        => .reading
  | .swapping n     => .swapping n
  | .inside index _ => .running index
  | .left           => .left

def Graders.erase (s : Graders τ ρ) : Threads τ := ⟨s.nextToWork, s.works, fun t => (s.thread t).erase⟩

def GraderEvent.erase : GraderEvent τ ρ → Option (ThreadEvent τ ρ)
  | .read t               => some (.read t)
  | .claim t index        => some (.claim t index)
  | .miss t               => some (.miss t)
  | .store t index result => some (.finish t index result)
  | _                     => none

omit [DecidableEq ρ] in
theorem erase_goto (t : τ) (p : GraderState ρ) : (s.goto t p).erase = s.erase.goto t p.erase := by
  have hthread : (fun u => (Function.update s.thread t p u).erase)
      = Function.update (fun u => (s.thread u).erase) t p.erase := by
    funext u
    by_cases hu : u = t
    · subst hu
      rw [Function.update_self, Function.update_self]
    · rw [Function.update_of_ne hu, Function.update_of_ne hu]
  simp only [Graders.erase, Graders.goto, Threads.goto, hthread]

omit [DecidableEq ρ] in
/-- A step within a run is none of `threadProc`. -/
theorem erase_goto_inside {t : τ} {index : Int} {call call' : CallState ρ} (h : s.thread t = .inside index call) :
    (s.goto t (.inside index call')).erase = s.erase := by
  have hself : (GraderState.inside index call').erase = s.erase.thread t := (congrArg GraderState.erase h).symm
  rw [erase_goto, hself, Threads.goto, Function.update_eq_self]

/-- The callbacks do not matter to `threadProc`, nor the lock, nor what was printed. -/
theorem graderStep_follows {e : GraderEvent τ ρ} (hstep : graderStep runs workCount s e = some s') :
    Machine.Follows (threadProc runs.exitCode workCount) s.erase s'.erase e.erase := by
  cases e with
  | read t =>
      obtain ⟨hreading, hs⟩ := grader_read_cases hstep
      have hread : threadProc runs.exitCode workCount s.erase (.read t)
          = some (s.erase.goto t (if s.nextToWork ≠ workCount then .swapping s.nextToWork else .left)) :=
        if_pos (congrArg GraderState.erase hreading)
      refine hread.trans ?_
      rcases hs with ⟨hnext, rfl⟩ | ⟨hnext, rfl⟩
      · rw [erase_goto, if_pos hnext]
        rfl
      · rw [erase_goto, if_neg (not_not.mpr hnext)]
        rfl
  | claim t index =>
      obtain ⟨hswapping, hnext, rfl⟩ := grader_claim_cases hstep
      refine (if_pos ⟨congrArg GraderState.erase hswapping, hnext⟩).trans ?_
      have hgoto := erase_goto (s := s) t (.inside index (.waiting .progression))
      simp only [Graders.erase, Graders.goto, Threads.goto, Threads.mk.injEq] at hgoto ⊢
      rw [hgoto.2.2]
      rfl
  | miss t =>
      obtain ⟨⟨n, hswapping, hne⟩, rfl⟩ := grader_miss_cases hstep
      have herase : s.erase.thread t = .swapping n := congrArg GraderState.erase hswapping
      show threadProc _ _ _ (.miss t) = _
      simp only [threadProc, herase]
      rw [erase_goto]
      exact if_pos hne
  | lock t index callback =>
      obtain ⟨hwaiting, -, rfl⟩ := grader_lock_cases hstep
      exact erase_goto_inside hwaiting
  | print t =>
      obtain ⟨_, _, _, _, hcalling, rfl⟩ := grader_print_cases hstep
      exact erase_goto_inside hcalling
  | unlock t =>
      obtain ⟨_, _, hcalling, rfl⟩ := grader_unlock_cases hstep
      exact erase_goto_inside hcalling
  | exec t result =>
      obtain ⟨_, hexecuting, rfl⟩ := grader_exec_cases hstep
      exact erase_goto_inside hexecuting
  | store t index result =>
      obtain ⟨hreturning, rfl⟩ := grader_store_cases hstep
      refine (if_pos (congrArg GraderState.erase hreturning)).trans ?_
      have hgoto := erase_goto (s := s) t .reading
      simp only [Graders.erase, Graders.goto, Threads.goto, Threads.mk.injEq] at hgoto ⊢
      rw [hgoto.2.2]
      rfl

/-- **Without its callbacks, a run is one of `threadProc`.** -/
theorem erase_run {works : Int → RunWork} {es : List (GraderEvent τ ρ)}
    (hrun : Machine.Run (graderStep runs workCount) (Graders.start works) es s) :
    Machine.Run (threadProc runs.exitCode workCount) (Threads.start works) (es.filterMap GraderEvent.erase) s.erase :=
  hrun.project Graders.erase GraderEvent.erase (fun _ _ _ => graderStep_follows)

end Erase

/-! ## One at a time -/

section Lock

variable {τ ρ : Type}

/-- What a thread in a callback has yet to print. -/
def GraderState.unprinted : GraderState ρ → Option (List (List UInt8))
  | .inside _ (.calling _ texts) => some texts
  | _                            => none

/-- What the callback that is being called has yet to print. -/
def Graders.unprinted (s : Graders τ ρ) : List (List UInt8) :=
  (s.lock.bind fun t => (s.thread t).unprinted).getD []

/-- The lock is with the thread that is in a callback. -/
def LockInv (s : Graders τ ρ) : Prop := ∀ t, s.lock = some t ↔ (s.thread t).unprinted.isSome = true

theorem LockInv.start (works : Int → RunWork) : LockInv (Graders.start works : Graders τ ρ) :=
  fun _ => ⟨nofun, nofun⟩

/-- No two threads are in callbacks. -/
theorem LockInv.unique {s : Graders τ ρ} (h : LockInv s) {t u : τ} (ht : (s.thread t).unprinted.isSome = true)
    (hu : (s.thread u).unprinted.isSome = true) : t = u :=
  Option.some.inj (((h t).mpr ht).symm.trans ((h u).mpr hu))

theorem LockInv.none_inside {s : Graders τ ρ} (h : LockInv s) (hlock : s.lock = none) (t : τ) :
    ¬ (s.thread t).unprinted.isSome = true := by
  rw [← h t, hlock]
  exact nofun

variable [DecidableEq τ]

/-- A thread that is in no callback, before and behind, leaves the lock where it is. -/
theorem LockInv.goto {s : Graders τ ρ} (h : LockInv s) {t : τ} {p : GraderState ρ}
    (hbefore : (s.thread t).unprinted = none) (hbehind : p.unprinted = none) : LockInv (s.goto t p) := by
  intro u
  by_cases hu : u = t
  · subst hu
    simp only [Graders.goto, Function.update_self, hbehind]
    rw [h u, hbefore]
  · simp only [Graders.goto, Function.update_of_ne hu]
    exact h u

variable [DecidableEq ρ] {runs : Runs ρ} {workCount : Int} {s s' : Graders τ ρ}

theorem LockInv.step {e : GraderEvent τ ρ} (h : LockInv s) (hstep : graderStep runs workCount s e = some s') :
    LockInv s' := by
  cases e with
  | read t =>
      obtain ⟨hreading, ⟨-, rfl⟩ | ⟨-, rfl⟩⟩ := grader_read_cases hstep
      · exact h.goto (by rw [hreading]; rfl) rfl
      · exact h.goto (by rw [hreading]; rfl) rfl
  | claim t index =>
      obtain ⟨hswapping, -, rfl⟩ := grader_claim_cases hstep
      exact h.goto (by rw [hswapping]; rfl) (p := .inside index (.waiting .progression)) rfl
  | miss t =>
      obtain ⟨⟨n, hswapping, -⟩, rfl⟩ := grader_miss_cases hstep
      exact h.goto (by rw [hswapping]; rfl) rfl
  | lock t index callback =>
      obtain ⟨hwaiting, hlock, rfl⟩ := grader_lock_cases hstep
      intro u
      by_cases hu : u = t
      · subst hu
        simp [Graders.goto, GraderState.unprinted]
      · have hnone := h.none_inside hlock u
        simp only [Graders.goto, Function.update_of_ne hu]
        exact iff_of_false (fun heq => hu (Option.some.inj heq).symm) hnone
  | print t =>
      obtain ⟨index, callback, text, left, hcalling, rfl⟩ := grader_print_cases hstep
      intro u
      by_cases hu : u = t
      · subst hu
        simp only [Graders.goto, Function.update_self]
        rw [h u, hcalling]
        rfl
      · simp only [Graders.goto, Function.update_of_ne hu]
        exact h u
  | unlock t =>
      obtain ⟨index, callback, hcalling, rfl⟩ := grader_unlock_cases hstep
      intro u
      refine iff_of_false nofun ?_
      by_cases hu : u = t
      · subst hu
        simp only [Graders.goto, Function.update_self]
        cases callback <;> exact nofun
      · simp only [Graders.goto, Function.update_of_ne hu]
        intro hinside
        exact hu (h.unique hinside (by rw [hcalling]; rfl))
  | exec t result =>
      obtain ⟨index, hexecuting, rfl⟩ := grader_exec_cases hstep
      exact h.goto (by rw [hexecuting]; rfl) rfl
  | store t index result =>
      obtain ⟨hreturning, rfl⟩ := grader_store_cases hstep
      exact h.goto (by rw [hreturning]; rfl) (p := .reading) rfl

theorem lockInv_run {works : Int → RunWork} {es : List (GraderEvent τ ρ)}
    (hrun : Machine.Run (graderStep runs workCount) (Graders.start works) es s) : LockInv s :=
  hrun.invariant (fun _ s => LockInv s) (LockInv.start works) (fun _ _ _ _ h hstep => h.step hstep)

end Lock

/-! ## What is printed -/

section Printed

variable {τ ρ : Type} [DecidableEq τ] [DecidableEq ρ] {runs : Runs ρ} {workCount : Int} {works : Int → RunWork}
  {s s' : Graders τ ρ} {es : List (GraderEvent τ ρ)}

/-- What the callback that an event starts prints. -/
def GraderEvent.prints (runs : Runs ρ) (workCount : Int) (works : Int → RunWork) : GraderEvent τ ρ → List (List UInt8)
  | .lock _ index callback => callback.prints runs workCount index (works index)
  | _                      => []

/-- All that the callbacks print, one behind the other. -/
def printedBy (runs : Runs ρ) (workCount : Int) (works : Int → RunWork) (es : List (GraderEvent τ ρ)) :
    List (List UInt8) :=
  es.flatMap (GraderEvent.prints runs workCount works)

/-- The exit codes of finished works aside, the works are what they were; so the work of a run is. -/
theorem works_inside (hcount : 0 ≤ workCount)
    (hrun : Machine.Run (graderStep runs workCount) (Graders.start works) es s) {t : τ} {index : Int}
    {call : CallState ρ} (h : s.thread t = .inside index call) :
    0 ≤ index ∧ index < s.nextToWork ∧ s.works index = works index ∧
      ∀ u call', s.thread u = .inside index call' → u = t := by
  have hinv := threadInv_run hcount (erase_run hrun)
  have hrunning : s.erase.thread t = .running index := congrArg GraderState.erase h
  cases hinv.phase index with
  | waiting _ _ hidle _ => exact absurd hrunning (hidle t)
  | running v h0 hnext _ honly _ hwork =>
      refine ⟨h0, hnext, hwork, ?_⟩
      intro u call' hu
      rw [honly u (congrArg GraderState.erase hu), honly t hrunning]
  | done _ _ _ _ _ hidle _ => exact absurd hrunning (hidle t)

/-- **What is printed is whole**: what the callbacks print, in the order in which they get the lock. -/
theorem output_run (hcount : 0 ≤ workCount)
    (hrun : Machine.Run (graderStep runs workCount) (Graders.start works) es s) :
    s.output ++ s.unprinted = printedBy runs workCount works es := by
  induction hrun with
  | start => rfl
  | @step es s s' e hrun hstep ih =>
      have hlock := lockInv_run hrun
      have hlock' := hlock.step hstep
      have hprinted : printedBy runs workCount works (es ++ [e])
          = printedBy runs workCount works es ++ e.prints runs workCount works := by
        simp [printedBy]
      rw [hprinted, ← ih]
      -- a step outside of the callbacks prints nothing, and leaves what is yet to be printed
      have hquiet : ∀ {t : τ} {p : GraderState ρ}, (s.thread t).unprinted = none →
          (s.goto t p).unprinted = s.unprinted := by
        intro t p hnone
        simp only [Graders.unprinted, Graders.goto]
        cases hl : s.lock with
        | none => rfl
        | some u =>
            have hu : u ≠ t := by
              rintro rfl
              have hsome := (hlock u).mp hl
              rw [hnone] at hsome
              cases hsome
            simp only [Option.bind_some, Function.update_of_ne hu]
      cases e with
      | read t =>
          obtain ⟨hreading, ⟨-, rfl⟩ | ⟨-, rfl⟩⟩ := grader_read_cases hstep
          · rw [hquiet (by rw [hreading]; rfl)]
            simp [GraderEvent.prints, Graders.goto]
          · rw [hquiet (by rw [hreading]; rfl)]
            simp [GraderEvent.prints, Graders.goto]
      | claim t index =>
          obtain ⟨hswapping, -, rfl⟩ := grader_claim_cases hstep
          have hsame := hquiet (t := t) (p := .inside index (.waiting .progression)) (by rw [hswapping]; rfl)
          simp only [GraderEvent.prints, List.append_nil]
          exact congrArg (s.output ++ ·) hsame
      | miss t =>
          obtain ⟨⟨n, hswapping, -⟩, rfl⟩ := grader_miss_cases hstep
          rw [hquiet (by rw [hswapping]; rfl)]
          simp [GraderEvent.prints, Graders.goto]
      | lock t index callback =>
          obtain ⟨hwaiting, hnone, rfl⟩ := grader_lock_cases hstep
          obtain ⟨-, -, hwork, -⟩ := works_inside hcount hrun hwaiting
          simp [GraderEvent.prints, Graders.unprinted, Graders.goto, GraderState.unprinted, hnone, hwork]
      | print t =>
          obtain ⟨index, callback, text, left, hcalling, rfl⟩ := grader_print_cases hstep
          have hl : s.lock = some t := (hlock t).mpr (by rw [hcalling]; rfl)
          simp [GraderEvent.prints, Graders.unprinted, Graders.goto, GraderState.unprinted, hl, hcalling]
      | unlock t =>
          obtain ⟨index, callback, hcalling, rfl⟩ := grader_unlock_cases hstep
          have hl : s.lock = some t := (hlock t).mpr (by rw [hcalling]; rfl)
          simp [GraderEvent.prints, Graders.unprinted, Graders.goto, GraderState.unprinted, hl, hcalling]
      | exec t result =>
          obtain ⟨index, hexecuting, rfl⟩ := grader_exec_cases hstep
          rw [hquiet (by rw [hexecuting]; rfl)]
          simp [GraderEvent.prints, Graders.goto]
      | store t index result =>
          obtain ⟨hreturning, rfl⟩ := grader_store_cases hstep
          have hsame := hquiet (t := t) (p := .reading) (by rw [hreturning]; rfl)
          simp only [GraderEvent.prints, List.append_nil]
          exact congrArg (s.output ++ ·) hsame

end Printed

/-! ## In which order -/

section Order

variable {τ ρ : Type}

/-- The callback of work `n` that an event starts. -/
def GraderEvent.call (n : Int) : GraderEvent τ ρ → Option (Callback ρ)
  | .lock _ index callback => if index = n then some callback else none
  | _                      => none

/-- The callbacks of work `n`, oldest first. -/
def calls (n : Int) (es : List (GraderEvent τ ρ)) : List (Callback ρ) := es.filterMap (GraderEvent.call n)

theorem calls_concat_of_none {n : Int} {es : List (GraderEvent τ ρ)} {e : GraderEvent τ ρ} (h : e.call n = none) :
    calls n (es ++ [e]) = calls n es := by
  simp [calls, h]

theorem calls_concat_lock {n : Int} {es : List (GraderEvent τ ρ)} {t : τ} {callback : Callback ρ} :
    calls n (es ++ [.lock t n callback]) = calls n es ++ [callback] := by
  simp [calls, GraderEvent.call]

/-- The callbacks of a work before this one. -/
def Callback.before : Callback ρ → List (Callback ρ)
  | .progression  => []
  | .completion _ => [.progression]

/-- The callbacks of a work that a thread in its run has started. -/
def CallState.sofar : CallState ρ → List (Callback ρ)
  | .waiting callback   => callback.before
  | .calling callback _ => callback.before ++ [callback]
  | .executing          => [.progression]
  | .returning result   => [.progression, .completion result]

theorem Callback.sofar_behind (callback : Callback ρ) : callback.behind.sofar = callback.before ++ [callback] := by
  cases callback <;> rfl

/-- How far the callbacks of work `n` are: not started, as far as the thread in its run is, or completed. -/
inductive CallbackProgress (runs : Runs ρ) (works : Int → RunWork) (es : List (GraderEvent τ ρ)) (s : Graders τ ρ)
    (n : Int) : Prop where
  | untaken (hnext : n < 0 ∨ s.nextToWork ≤ n) (hcalls : calls n es = [])
  | inside (t : τ) (call : CallState ρ) (hthread : s.thread t = .inside n call) (hcalls : calls n es = call.sofar)
  | completed (result : ρ) (h0 : 0 ≤ n) (hnext : n < s.nextToWork) (hidle : ∀ t call, s.thread t ≠ .inside n call)
      (hcalls : calls n es = [.progression, .completion result])
      (hwork : s.works n = finished runs.exitCode works n result)

variable [DecidableEq τ] [DecidableEq ρ] {runs : Runs ρ} {workCount : Int} {works : Int → RunWork}
  {s s' : Graders τ ρ} {es : List (GraderEvent τ ρ)} {e : GraderEvent τ ρ} {t : τ} {n : Int}

omit [DecidableEq ρ] in
/-- A step of `t` that is none of a run of `n` leaves `n` where it is. -/
theorem CallbackProgress.other {p : GraderState ρ} (h : CallbackProgress runs works es s n) (hcall : e.call n = none)
    (hbefore : ∀ call, s.thread t ≠ .inside n call) (hbehind : ∀ call, p ≠ .inside n call)
    (hthread : s'.thread = Function.update s.thread t p) (hnext : s'.nextToWork ≤ n ↔ s.nextToWork ≤ n)
    (hwork : s'.works n = s.works n) : CallbackProgress runs works (es ++ [e]) s' n := by
  have hcalls : calls n (es ++ [e]) = calls n es := calls_concat_of_none hcall
  have hinside : ∀ u call, s'.thread u = .inside n call ↔ s.thread u = .inside n call := by
    intro u call
    rw [hthread]
    by_cases hu : u = t
    · subst hu
      rw [Function.update_self]
      exact iff_of_false (hbehind call) (hbefore call)
    · rw [Function.update_of_ne hu]
  cases h with
  | untaken hout hh => exact .untaken (hout.imp_right hnext.mpr) (hcalls.trans hh)
  | inside u call hu hh => exact .inside u call ((hinside u call).mpr hu) (hcalls.trans hh)
  | completed result h0 hlt hidle hh hw =>
      have hlt' : n < s'.nextToWork := by
        rw [← not_le, hnext, not_le]
        exact hlt
      exact .completed result h0 hlt' (fun u call hu => hidle u call ((hinside u call).mp hu)) (hcalls.trans hh)
        (hwork.trans hw)

/-- What is known of a work in whose run a thread is. -/
theorem CallbackProgress.calls_inside (hcount : 0 ≤ workCount)
    (hrun : Machine.Run (graderStep runs workCount) (Graders.start works) es s) (h : CallbackProgress runs works es s n)
    {call : CallState ρ} (hthread : s.thread t = .inside n call) : calls n es = call.sofar := by
  obtain ⟨h0, hlt, -, honly⟩ := works_inside hcount hrun hthread
  cases h with
  | untaken hout _ => omega
  | inside u call' hu hh =>
      obtain rfl := honly u call' hu
      rw [hthread] at hu
      cases hu
      exact hh
  | completed _ _ _ hidle _ _ => exact absurd hthread (hidle t call)

omit [DecidableEq τ] [DecidableEq ρ] in
theorem inside_index {index : Int} {call : CallState ρ} (h : s.thread t = .inside index call) (hne : index ≠ n) :
    ∀ call', s.thread t ≠ .inside n call' := by
  intro call' heq
  rw [h] at heq
  exact hne (GraderState.inside.inj heq).1

omit [DecidableEq ρ] in
/-- A step within a run of `m`. -/
theorem CallbackProgress.within {m : Int} {call : CallState ρ} (call' : CallState ρ)
    (h : CallbackProgress runs works es s n)
    (hthread : s.thread t = .inside m call) (hself : m = n → calls n (es ++ [e]) = call'.sofar)
    (hcall : m ≠ n → e.call n = none) (hgoto : s'.thread = Function.update s.thread t (.inside m call'))
    (hnext : s'.nextToWork = s.nextToWork) (hworks : s'.works = s.works) :
    CallbackProgress runs works (es ++ [e]) s' n := by
  by_cases hm : m = n
  · subst hm
    exact .inside t call' (by rw [hgoto, Function.update_self]) (hself rfl)
  · exact h.other (hcall hm) (inside_index hthread hm) (fun _ heq => hm (GraderState.inside.inj heq).1) hgoto
      (by rw [hnext]) (by rw [hworks])

theorem CallbackProgress.step (hcount : 0 ≤ workCount)
    (hrun : Machine.Run (graderStep runs workCount) (Graders.start works) es s) (h : CallbackProgress runs works es s n)
    (hstep : graderStep runs workCount s e = some s') : CallbackProgress runs works (es ++ [e]) s' n := by
  cases e with
  | read t =>
      obtain ⟨hreading, ⟨-, rfl⟩ | ⟨-, rfl⟩⟩ := grader_read_cases hstep
      · exact h.other rfl (by simp [hreading]) (by simp) rfl .rfl rfl
      · exact h.other rfl (by simp [hreading]) (by simp) rfl .rfl rfl
  | claim t index =>
      obtain ⟨hswapping, hnext, rfl⟩ := grader_claim_cases hstep
      have hcalls : calls n (es ++ [.claim t index]) = calls n es := calls_concat_of_none rfl
      by_cases hn : index = n
      · subst hn
        refine .inside t (.waiting .progression) (Function.update_self ..) (hcalls.trans ?_)
        cases h with
        | untaken _ hh => exact hh
        | inside u call hu _ =>
            obtain ⟨-, hlt, -, -⟩ := works_inside hcount hrun hu
            omega
        | completed _ _ hlt _ _ _ => omega
      · refine h.other rfl (by simp [hswapping]) (fun _ heq => hn (GraderState.inside.inj heq).1) rfl ?_ rfl
        show index + 1 ≤ n ↔ s.nextToWork ≤ n
        omega
  | miss t =>
      obtain ⟨⟨_, hswapping, -⟩, rfl⟩ := grader_miss_cases hstep
      exact h.other rfl (by simp [hswapping]) (by simp) rfl .rfl rfl
  | lock t index callback =>
      obtain ⟨hwaiting, -, rfl⟩ := grader_lock_cases hstep
      refine h.within _ hwaiting ?_ (fun hne => if_neg hne) rfl rfl rfl
      rintro rfl
      rw [calls_concat_lock, h.calls_inside hcount hrun hwaiting]
      rfl
  | print t =>
      obtain ⟨index, callback, text, rest, hcalling, rfl⟩ := grader_print_cases hstep
      refine h.within (.calling callback rest) hcalling ?_ (fun _ => rfl) rfl rfl rfl
      rintro rfl
      have hsofar := h.calls_inside hcount hrun hcalling
      exact (calls_concat_of_none rfl).trans hsofar
  | unlock t =>
      obtain ⟨index, callback, hcalling, rfl⟩ := grader_unlock_cases hstep
      refine h.within _ hcalling ?_ (fun _ => rfl) rfl rfl rfl
      rintro rfl
      rw [calls_concat_of_none rfl, h.calls_inside hcount hrun hcalling, callback.sofar_behind]
      rfl
  | exec t result =>
      obtain ⟨index, hexecuting, rfl⟩ := grader_exec_cases hstep
      refine h.within (.waiting (.completion result)) hexecuting ?_ (fun _ => rfl) rfl rfl rfl
      rintro rfl
      have hsofar := h.calls_inside hcount hrun hexecuting
      exact (calls_concat_of_none rfl).trans hsofar
  | store t index result =>
      obtain ⟨hreturning, rfl⟩ := grader_store_cases hstep
      obtain ⟨h0, hlt, hwork, honly⟩ := works_inside hcount hrun hreturning
      by_cases hn : index = n
      · subst hn
        refine .completed result h0 hlt ?_ ((calls_concat_of_none rfl).trans (h.calls_inside hcount hrun hreturning)) ?_
        · intro u call hu
          by_cases hut : u = t
          · subst hut
            simp [Graders.goto] at hu
          · simp only [Graders.goto, Function.update_of_ne hut] at hu
            exact hut (honly u call hu)
        · simp [finished, hwork]
      · exact h.other rfl (inside_index hreturning hn) (by simp) rfl .rfl (Function.update_of_ne (Ne.symm hn) _ _)

/-- The run lemma: the callbacks of every work, in every order of steps. -/
theorem progress_run (hcount : 0 ≤ workCount)
    (hrun : Machine.Run (graderStep runs workCount) (Graders.start works) es s) (n : Int) :
    CallbackProgress runs works es s n := by
  induction hrun with
  | start => exact .untaken (by simp only [Graders.start]; omega) rfl
  | step hrun hstep ih => exact ih.step hcount hrun hstep

omit [DecidableEq τ] [DecidableEq ρ] in
/-- A work has a progression, and behind it a completion. -/
theorem CallbackProgress.ordered (h : CallbackProgress runs works es s n) :
    calls n es = [] ∨ calls n es = [.progression] ∨ ∃ result, calls n es = [.progression, .completion result] := by
  cases h with
  | untaken _ hh => exact .inl hh
  | inside t call _ hh =>
      rw [hh]
      match call with
      | .waiting .progression      => exact .inl rfl
      | .waiting (.completion _)   => exact .inr (.inl rfl)
      | .calling .progression _    => exact .inr (.inl rfl)
      | .calling (.completion r) _ => exact .inr (.inr ⟨r, rfl⟩)
      | .executing                 => exact .inr (.inl rfl)
      | .returning r               => exact .inr (.inr ⟨r, rfl⟩)
  | completed result _ _ _ hh _ => exact .inr (.inr ⟨result, hh⟩)

end Order

/-- **The callbacks are called one at a time**, whatever the order of the threads' steps: no two threads are in one,
    what they print is not mixed, and every work has its progression once, its completion once, and in this order. -/
theorem callbacks_exclusive {τ ρ : Type} [DecidableEq τ] [DecidableEq ρ] (runs : Runs ρ) (works : Int → RunWork)
    {workCount : Int} (hcount : 0 ≤ workCount) {es : List (GraderEvent τ ρ)} {s : Graders τ ρ}
    (hrun : Machine.Run (graderStep runs workCount) (Graders.start works) es s) :
    (∀ t u, (s.thread t).unprinted.isSome = true → (s.thread u).unprinted.isSome = true → t = u) ∧
      s.output ++ s.unprinted = printedBy runs workCount works es ∧
      ∀ n, calls n es = [] ∨ calls n es = [.progression] ∨
        ∃ result, calls n es = [.progression, .completion result] :=
  ⟨fun _ _ => (lockInv_run hrun).unique, output_run hcount hrun, fun n => (progress_run hcount hrun n).ordered⟩

/-- `linux_exec_process` and `win32_exec_process`, from what they end with. -/
def processRuns : Runs ExecResult where
  exitCode _ _ result := result.exitCode
  stderrContent result := CString.ofBytes result.stderrContent

/-- Two threads, and a command that fails. The second thread gets the lock first, and the first one waits for it. -/
def interleavedCalls {τ : Type} (a b : τ) : List (GraderEvent τ ExecResult) :=
  [.read a, .claim a 0, .read b, .claim b 1, .lock b 1 .progression, .print b, .print b, .unlock b,
    .lock a 0 .progression, .exec b ⟨2, [], [33]⟩, .print a, .print a, .unlock a,
    .lock b 1 (.completion ⟨2, [], [33]⟩), .print b]

theorem callbacks_exclusive_interleavedCalls : ∃ s : Graders (Fin 2) ExecResult,
    Machine.Run (graderStep processRuns 2) (Graders.start makeWorks) (interleavedCalls 0 1) s ∧
      s.output ++ s.unprinted = printedBy processRuns 2 makeWorks (interleavedCalls (0 : Fin 2) 1) ∧
      s.unprinted = [[newline]] := by
  have hsome : ((interleavedCalls (0 : Fin 2) 1).foldlM (graderStep processRuns 2)
      (Graders.start makeWorks)).isSome := rfl
  have hrun : Machine.Run (graderStep processRuns 2) (Graders.start makeWorks) (interleavedCalls (0 : Fin 2) 1) _ :=
    Machine.run_iff_foldlM.mpr (Option.some_get hsome).symm
  exact ⟨_, hrun, (callbacks_exclusive processRuns makeWorks (by decide) hrun).2.1, rfl⟩

end Hand2
