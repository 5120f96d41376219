import Mathlib.Algebra.BigOperators.Ring.Finset
import Mathlib.Algebra.Group.Action.Defs
import Mathlib.Algebra.Order.BigOperators.Group.Finset
import Mathlib.Data.Fintype.Card
import Hand2.Grading.Callbacks

/-!
# `Grading.Finish` — the grading threads come to an end

The threads of `Grading.Callbacks` wait for each other at the lock, and start their loops again when another one was
faster. Still no order of their steps goes on for ever (`GraderState.rank`), none gets stuck before all threads have
left (`step_of_not_left`), and with that every run that cannot go on has run every work.
-/

namespace Hand2

/-! ## No run goes on for ever -/

section Rank

variable {τ ρ : Type}

/-- How many steps a thread is from the read of the counter, or from the end. A copy of the counter that is old costs
    two more: the compare and swap fails, and the counter is read again. -/
def GraderState.rank (nextToWork : Int) : GraderState ρ → Nat
  | .left                                      => 0
  | .swapping n                                => if n = nextToWork then 1 else 3
  | .reading                                   => 2
  | .inside _ (.returning _)                   => 3
  | .inside _ (.calling (.completion _) texts) => 4 + texts.length
  | .inside _ (.waiting (.completion _))       => 7
  | .inside _ .executing                       => 8
  | .inside _ (.calling .progression texts)    => 9 + texts.length
  | .inside _ (.waiting .progression)          => 12

/-- A counter that moves makes a thread start its loop again. -/
theorem GraderState.rank_moved (m n : Int) (p : GraderState ρ) : p.rank m ≤ p.rank n + 2 := by
  cases p with
  | swapping k =>
      simp only [rank]
      split <;> split <;> omega
  | inside index call =>
      match call with
      | .returning _                => exact Nat.le_add_right ..
      | .calling (.completion _) _  => exact Nat.le_add_right ..
      | .waiting (.completion _)    => exact Nat.le_add_right ..
      | .executing                  => exact Nat.le_add_right ..
      | .calling .progression _     => exact Nat.le_add_right ..
      | .waiting .progression       => exact Nat.le_add_right ..
  | _ => exact Nat.le_add_right ..

/-- Neither callback prints more than twice. -/
theorem Callback.prints_length_le (runs : Runs ρ) (workCount index : Int) (work : RunWork) (callback : Callback ρ) :
    (callback.prints runs workCount index work).length ≤ 2 := by
  cases callback with
  | progression => exact Nat.le_refl 2
  | completion result =>
      simp only [Callback.prints, gradeHomeworkOnCompletion]
      split
      · exact Nat.le_refl 2
      · exact Nat.zero_le 2

/-- A thread that gets the lock. -/
theorem Callback.rank_lock (runs : Runs ρ) (workCount index nextToWork : Int) (work : RunWork)
    (callback : Callback ρ) :
    (GraderState.inside index (.calling callback (callback.prints runs workCount index work))).rank nextToWork
      < (GraderState.inside index (.waiting callback)).rank nextToWork := by
  have hlength := callback.prints_length_le runs workCount index work
  cases callback with
  | progression =>
      simp only [GraderState.rank]
      omega
  | completion result =>
      simp only [GraderState.rank]
      omega

variable [DecidableEq τ] [Fintype τ]

/-- How many steps the threads can still take: those of the works that are not taken, and their own. -/
def Graders.rank (workCount : Int) (s : Graders τ ρ) : Nat :=
  (workCount - s.nextToWork).toNat * (2 * Fintype.card τ + 10) + ∑ t, (s.thread t).rank s.nextToWork

/-- A thread gets on, and the others stay where they are. -/
theorem Graders.rank_goto {s s' : Graders τ ρ} {t : τ} {p : GraderState ρ} (workCount : Int)
    (hthread : s'.thread = Function.update s.thread t p) (hnext : s'.nextToWork = s.nextToWork)
    (hlt : p.rank s.nextToWork < (s.thread t).rank s.nextToWork) : s'.rank workCount < s.rank workCount := by
  simp only [Graders.rank, hnext, hthread]
  refine Nat.add_lt_add_left (Finset.sum_lt_sum ?_ ⟨t, Finset.mem_univ t, ?_⟩) _
  · intro u _
    by_cases hu : u = t
    · subst hu
      rw [Function.update_self]
      exact hlt.le
    · rw [Function.update_of_ne hu]
  · rwa [Function.update_self]

variable [DecidableEq ρ] {runs : Runs ρ} {workCount : Int} {works : Int → RunWork} {s s' : Graders τ ρ}
  {es : List (GraderEvent τ ρ)}

omit [DecidableEq ρ] in
/-- A work that is taken pays for its run, and for the others that come too late. -/
theorem Graders.rank_claim {t : τ} (hswapping : s.thread t = .swapping s.nextToWork) (hlt : s.nextToWork < workCount)
    (hthread : s'.thread = Function.update s.thread t (.inside s.nextToWork (.waiting .progression)))
    (hnext : s'.nextToWork = s.nextToWork + 1) : s'.rank workCount < s.rank workCount := by
  have hsum : ∑ u, (s'.thread u).rank s'.nextToWork
      ≤ ∑ u, ((s.thread u).rank s.nextToWork + 2 + if u = t then 9 else 0) := by
    refine Finset.sum_le_sum ?_
    intro u _
    rw [hthread, hnext]
    by_cases hu : u = t
    · subst hu
      rw [Function.update_self, hswapping]
      simp [GraderState.rank]
    · rw [Function.update_of_ne hu, if_neg hu]
      exact GraderState.rank_moved ..
  have hself : (∑ u, if u = t then 9 else 0) = 9 := by simp
  rw [Finset.sum_add_distrib, Finset.sum_add_distrib, hself, Finset.sum_const, Finset.card_univ, smul_eq_mul] at hsum
  have hcounter : (workCount - s.nextToWork).toNat = (workCount - s'.nextToWork).toNat + 1 := by omega
  simp only [Graders.rank]
  rw [hcounter, Nat.add_mul]
  omega

/-- **Every step lowers the rank.** -/
theorem Graders.rank_step {e : GraderEvent τ ρ} (hcount : 0 ≤ workCount)
    (hrun : Machine.Run (graderStep runs workCount) (Graders.start works) es s)
    (hstep : graderStep runs workCount s e = some s') : s'.rank workCount < s.rank workCount := by
  cases e with
  | read t =>
      obtain ⟨hreading, ⟨-, rfl⟩ | ⟨-, rfl⟩⟩ := grader_read_cases hstep
      · exact rank_goto workCount rfl rfl (by simp [hreading, GraderState.rank])
      · exact rank_goto workCount rfl rfl (by simp [hreading, GraderState.rank])
  | claim t index =>
      obtain ⟨hswapping, hnext, rfl⟩ := grader_claim_cases hstep
      subst hnext
      have hlt := (threadInv_run hcount (erase_run hrun)).swapping_lt t _ (congrArg GraderState.erase hswapping)
      exact rank_claim hswapping hlt rfl rfl
  | miss t =>
      obtain ⟨⟨n, hswapping, hne⟩, rfl⟩ := grader_miss_cases hstep
      exact rank_goto workCount rfl rfl (by simp [hswapping, GraderState.rank, Ne.symm hne])
  | lock t index callback =>
      obtain ⟨hwaiting, -, rfl⟩ := grader_lock_cases hstep
      refine rank_goto workCount rfl rfl ?_
      rw [hwaiting]
      exact callback.rank_lock runs workCount index s.nextToWork (s.works index)
  | print t =>
      obtain ⟨index, callback, text, rest, hcalling, rfl⟩ := grader_print_cases hstep
      refine rank_goto (p := .inside index (.calling callback rest)) workCount rfl rfl ?_
      rw [hcalling]
      cases callback <;> simp [GraderState.rank]
  | unlock t =>
      obtain ⟨index, callback, hcalling, rfl⟩ := grader_unlock_cases hstep
      refine rank_goto (p := .inside index callback.behind) workCount rfl rfl ?_
      rw [hcalling]
      cases callback <;> simp [GraderState.rank, Callback.behind]
  | exec t result =>
      obtain ⟨index, hexecuting, rfl⟩ := grader_exec_cases hstep
      exact rank_goto workCount rfl rfl (by simp [hexecuting, GraderState.rank])
  | store t index result =>
      obtain ⟨hreturning, rfl⟩ := grader_store_cases hstep
      exact rank_goto (p := .reading) workCount rfl rfl (by simp [hreturning, GraderState.rank])

omit [DecidableEq τ] [DecidableEq ρ] in
theorem Graders.rank_start (works : Int → RunWork) (workCount : Int) :
    (Graders.start works : Graders τ ρ).rank workCount
      = workCount.toNat * (2 * Fintype.card τ + 10) + 2 * Fintype.card τ := by
  simp [Graders.rank, Graders.start, GraderState.rank, Finset.card_univ, Nat.mul_comm 2]

/-- **How long a run can get**, in any order of the steps. -/
theorem length_le_of_run (hcount : 0 ≤ workCount)
    (hrun : Machine.Run (graderStep runs workCount) (Graders.start works) es s) :
    es.length ≤ workCount.toNat * (2 * Fintype.card τ + 10) + 2 * Fintype.card τ := by
  have hrank := hrun.countP_add_le (fun s => ∃ es, Machine.Run (graderStep runs workCount) (Graders.start works) es s)
    (fun _ => True) (fun _ => true) (Graders.rank workCount) ⟨[], .start⟩
    (fun _ _ _ hreach _ hstep => hreach.elim fun _ hrun => ⟨_, hrun.step hstep⟩)
    (fun _ _ _ hreach _ hstep _ => hreach.elim fun _ hrun => Graders.rank_step hcount hrun hstep)
    (fun _ _ _ _ _ _ hfalse => absurd hfalse.symm Bool.false_ne_true) (fun _ _ => trivial)
  rw [Graders.rank_start] at hrank
  have hlength : es.countP (fun _ => true) = es.length := congrFun List.countP_true es
  omega

end Rank

/-! ## No run gets stuck -/

section Stuck

variable {τ ρ : Type} [DecidableEq τ] [DecidableEq ρ] {runs : Runs ρ} {workCount : Int} {works : Int → RunWork}
  {s : Graders τ ρ} {es : List (GraderEvent τ ρ)}

/-- The thread that has the lock gets on. -/
theorem step_of_lock (h : LockInv s) {t : τ} (hlock : s.lock = some t) :
    ∃ e s', graderStep runs workCount s e = some s' := by
  have hin := (h t).mp hlock
  match hthread : s.thread t with
  | .inside index (.calling callback []) =>
      refine ⟨.unlock t, { s.goto t (.inside index callback.behind) with lock := none }, ?_⟩
      simp only [graderStep, hthread]
  | .inside index (.calling callback (text :: rest)) =>
      refine ⟨.print t, { s.goto t (.inside index (.calling callback rest)) with output := s.output ++ [text] }, ?_⟩
      simp only [graderStep, hthread]
  | .reading                 => simp [hthread, GraderState.unprinted] at hin
  | .swapping _              => simp [hthread, GraderState.unprinted] at hin
  | .left                    => simp [hthread, GraderState.unprinted] at hin
  | .inside _ (.waiting _)   => simp [hthread, GraderState.unprinted] at hin
  | .inside _ .executing     => simp [hthread, GraderState.unprinted] at hin
  | .inside _ (.returning _) => simp [hthread, GraderState.unprinted] at hin

/-- If no thread has it, every thread that has not left gets on, once its command has ended. -/
theorem step_of_unlocked (h : LockInv s) (result : ρ) (hlock : s.lock = none) {t : τ} (ht : s.thread t ≠ .left) :
    ∃ e s', graderStep runs workCount s e = some s' := by
  match hthread : s.thread t with
  | .reading => exact ⟨.read t, _, if_pos hthread⟩
  | .swapping n =>
      by_cases hnext : s.nextToWork = n
      · exact ⟨.claim t n, _, if_pos ⟨hthread, hnext⟩⟩
      · refine ⟨.miss t, s.goto t .reading, ?_⟩
        simp only [graderStep, hthread]
        exact if_pos hnext
  | .inside index (.waiting callback)   => exact ⟨.lock t index callback, _, if_pos ⟨hthread, hlock⟩⟩
  | .inside index (.calling callback _) => exact absurd (by rw [hthread]; rfl) (h.none_inside hlock t)
  | .inside index .executing =>
      refine ⟨.exec t result, s.goto t (.inside index (.waiting (.completion result))), ?_⟩
      simp only [graderStep, hthread]
  | .inside index (.returning result)   => exact ⟨.store t index result, _, if_pos hthread⟩
  | .left                               => exact absurd hthread ht

/-- **No deadlock.** -/
theorem step_of_not_left [Nonempty ρ] (h : LockInv s) {t : τ} (ht : s.thread t ≠ .left) :
    ∃ e s', graderStep runs workCount s e = some s' := by
  obtain ⟨result⟩ := ‹Nonempty ρ›
  cases hlock : s.lock with
  | none   => exact step_of_unlocked h result hlock ht
  | some u => exact step_of_lock h hlock

/-- Threads that have left do nothing. -/
theorem no_step_of_left (hleft : ∀ t, s.thread t = .left) (e : GraderEvent τ ρ) :
    graderStep runs workCount s e = none := by
  cases e <;> simp [graderStep, hleft]

/-- What stands when all threads have left. -/
theorem done_of_left [Nonempty τ] (hcount : 0 ≤ workCount)
    (hrun : Machine.Run (graderStep runs workCount) (Graders.start works) es s) (hleft : ∀ t, s.thread t = .left) :
    s.output = printedBy runs workCount works es ∧
      ∀ n, 0 ≤ n → n < workCount →
        ∃ result, calls n es = [.progression, .completion result] ∧
          s.works n = finished runs.exitCode works n result := by
  constructor
  · have hlock : s.lock = none := by
      cases hl : s.lock with
      | none   => rfl
      | some t => simpa [hleft t, GraderState.unprinted] using (lockInv_run hrun t).mp hl
    have houtput := output_run hcount hrun
    simpa [Graders.unprinted, hlock] using houtput
  · intro n h0 hlt
    obtain ⟨t⟩ := ‹Nonempty τ›
    have hend := (threadInv_run hcount (erase_run hrun)).left_end t (congrArg GraderState.erase (hleft t))
    have hnext : s.nextToWork = workCount := hend
    cases progress_run hcount hrun n with
    | untaken hout _       => omega
    | inside u call hu _   => cases (hleft u).symm.trans hu
    | completed result _ _ _ hcalls hwork => exact ⟨result, hcalls, hwork⟩

end Stuck

/-- **The grading threads finish.** In every order of their steps: a run is no longer than the works and threads allow;
    and it can go on, or else all threads have left, every work was announced and completed, its exit code is stored,
    and all messages are printed. -/
theorem graders_finish {τ ρ : Type} [DecidableEq τ] [Fintype τ] [Nonempty τ] [DecidableEq ρ] [Nonempty ρ]
    (runs : Runs ρ) (works : Int → RunWork) {workCount : Int} (hcount : 0 ≤ workCount) {es : List (GraderEvent τ ρ)}
    {s : Graders τ ρ} (hrun : Machine.Run (graderStep runs workCount) (Graders.start works) es s) :
    es.length ≤ workCount.toNat * (2 * Fintype.card τ + 10) + 2 * Fintype.card τ ∧
      ((∃ e s', graderStep runs workCount s e = some s') ∨
        (∀ t, s.thread t = .left) ∧ s.output = printedBy runs workCount works es ∧
          ∀ n, 0 ≤ n → n < workCount → ∃ result, calls n es = [.progression, .completion result] ∧
            s.works n = finished runs.exitCode works n result) := by
  refine ⟨length_le_of_run hcount hrun, ?_⟩
  by_cases hleft : ∀ t, s.thread t = .left
  · exact .inr ⟨hleft, done_of_left hcount hrun hleft⟩
  · push Not at hleft
    obtain ⟨t, ht⟩ := hleft
    exact .inl (step_of_not_left (lockInv_run hrun) ht)

/-- Two threads that want the same work; the second one is too late, and leaves first. -/
def oneForTwo {τ : Type} (a b : τ) : List (GraderEvent τ ExecResult) :=
  [.read a, .read b, .claim a 0, .miss b, .lock a 0 .progression, .read b, .print a, .print a, .unlock a,
    .exec a ⟨0, [], []⟩, .lock a 0 (.completion ⟨0, [], []⟩), .unlock a, .store a 0 ⟨0, [], []⟩, .read a]

theorem graders_finish_oneForTwo : ∃ s : Graders (Fin 2) ExecResult,
    Machine.Run (graderStep processRuns 1) (Graders.start makeWorks) (oneForTwo 0 1) s ∧
      (oneForTwo (0 : Fin 2) 1).length ≤ 18 ∧
      s.output = printedBy processRuns 1 makeWorks (oneForTwo (0 : Fin 2) 1) := by
  have : Nonempty ExecResult := ⟨⟨0, [], []⟩⟩
  have hsome : ((oneForTwo (0 : Fin 2) 1).foldlM (graderStep processRuns 1) (Graders.start makeWorks)).isSome := rfl
  have hrun : Machine.Run (graderStep processRuns 1) (Graders.start makeWorks) (oneForTwo (0 : Fin 2) 1) _ :=
    Machine.run_iff_foldlM.mpr (Option.some_get hsome).symm
  have hleft : ∀ t : Fin 2, (Option.get _ hsome).thread t = .left := fun
    | 0 => rfl
    | 1 => rfl
  obtain ⟨hlength, ⟨e, s', hstep⟩ | ⟨-, houtput, -⟩⟩ := graders_finish processRuns makeWorks (by decide) hrun
  · rw [no_step_of_left hleft] at hstep
    cases hstep
  · exact ⟨_, hrun, hlength, houtput⟩

end Hand2
